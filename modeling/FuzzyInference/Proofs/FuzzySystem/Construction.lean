import FuzzyInference.FuzzySystem.Description
import FuzzyInference.Proofs.Rule.Correspondence

/-!
# Construction of systems

What the construction of a system asks for, stated once: inputs and target are registered, the
target is no input, and every rule is valid, concludes on the target and reads inputs only.
-/

namespace FuzzyInference.FuzzySystem

open Result

variable {α : Type} [Scalar α]

/-- Another context keeps the inputs. -/
@[simp] theorem inputVariables_withContext (s : FuzzySystem α) (ctx : Context) :
    (s.withContext ctx).inputVariables = s.inputVariables := rfl

/-- The rules of a base suit a target and inputs. -/
structure Suits (r : Registry α) (inputs : List Handle) (target : Handle) (rule : Rule α) :
    Prop where
  /-- The rule is valid. -/
  valid : rule.validate r = .ok ()
  /-- The rule concludes on the target. -/
  target_eq : rule.target = target
  /-- The rule reads inputs only. -/
  reads : ∀ a ∈ rule.antecedent.valuations, a.1 ∈ inputs

/-- Variables are required to be inputs one by one. -/
theorem requireInputs_eq_ok_iff {r : Registry α} {inputs : List Handle}
    {read : List (Handle × String)} :
    requireInputs r inputs read = .ok () ↔ ∀ a ∈ read, a.1 ∈ inputs := by
  induction read with
  | nil => simp [requireInputs]
  | cons a read ih =>
    obtain ⟨h, label⟩ := a
    rw [requireInputs, List.forall_mem_cons]
    by_cases hc : h ∈ inputs
    · simpa [hc, pure_eq_ok] using ih
    · simp [hc, bind_eq_ok_iff]

/-- A rule passes its check exactly when it suits the target and the inputs. -/
theorem requireRule_eq_ok_iff {r : Registry α} {inputs : List Handle} {target : Handle}
    {rule : Rule α} : requireRule r inputs target rule = .ok () ↔ Suits r inputs target rule := by
  rw [requireRule, check_bind_eq_ok_iff]
  by_cases ht : rule.target = target
  · simp only [ht, ne_eq, not_true_eq_false, if_false, requireInputs_eq_ok_iff]
    exact ⟨fun ⟨hv, hr⟩ ↦ ⟨hv, ht, hr⟩, fun h ↦ ⟨h.valid, h.reads⟩⟩
  · simp only [ht, ne_eq, not_false_eq_true, if_true, bind_eq_ok_iff]
    exact ⟨by simp, fun h ↦ absurd h.target_eq ht⟩

/-- A handle is registered exactly when its lookup passes. -/
theorem discard_get_eq_ok_iff {r : Registry α} {h : Handle} :
    discard ((r.get h).mapError (Fault.lookup (α := α))) = .ok () ↔ ∃ v, r.get h = .ok v := by
  cases hv : r.get h <;> simp [discard, Functor.mapConst, Except.map, Except.mapError]

/-- What the construction of a system asks for and gives. -/
theorem build_eq_ok_iff {r : Registry α} {inputs : List Handle} {rules : RuleBase α}
    {target : Handle} {s : FuzzySystem α} :
    build r inputs rules target = .ok s ↔
      (∀ h ∈ inputs ++ [target], ∃ v, r.get h = .ok v) ∧ target ∉ inputs ∧
        (∀ rule ∈ rules.rules, Suits r inputs target rule) ∧
          s = ⟨r, inputs, rules, target, {}⟩ := by
  rw [build, check_bind_eq_ok_iff, forM_eq_ok_iff]
  simp only [discard_get_eq_ok_iff]
  by_cases ht : target ∈ inputs
  · simp [ht]
  · have hc : inputs.contains target = false := by simpa using ht
    simp only [hc, Bool.false_eq_true, if_false, pure_eq_ok, check_bind_eq_ok_iff,
      forM_eq_ok_iff, requireRule_eq_ok_iff, ht, not_false_eq_true, true_and, Except.ok.injEq,
      eq_comm (a := s)]

end FuzzyInference.FuzzySystem
