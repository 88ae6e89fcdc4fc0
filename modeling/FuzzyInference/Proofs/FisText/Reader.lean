import FuzzyInference.FisText.Reader
import FuzzyInference.Proofs.Fault.Result

/-!
# Systems that are read

Where a system that is read from a `.fis` text comes from: its rules were built one by one, and the
system was built from them, whatever the text.
-/

namespace FuzzyInference.FisText

open Result

variable {α : Type} [Scalar α]

/-- A rule that is read was built. -/
theorem exists_build_of_readRule {r : Registry α} {inputs : List Handle} {target : Handle}
    {e : Entry} {rule : Rule α} (h : readRule r inputs target e = .ok rule) :
    ∃ antecedent consequent weight, Rule.build antecedent consequent weight = .ok rule := by
  unfold readRule at h
  split at h
  · cases h
  · simp only [bind_eq_ok_iff, error_bind, refuse_eq_ok_iff] at h
    obtain ⟨_, -, _, -, weight, -, -, _, -, -, antecedent, -, -, consequent, -, h⟩ := h
    exact ⟨antecedent, consequent, weight, h⟩

/-- A system that is read was built from rules that were built. -/
theorem exists_build_of_readSystem {text : String} {steps : Steps α} {s : FuzzySystem α}
    (h : readSystem text steps = .ok s) :
    ∃ r inputs rules target built ctx,
      (∀ rule ∈ rules.rules, ∃ antecedent consequent weight,
        Rule.build antecedent consequent weight = .ok rule) ∧
        FuzzySystem.build r inputs rules target = .ok built ∧ s = built.withContext ctx := by
  simp only [readSystem, bind_eq_ok_iff, error_bind, refuse_eq_ok_iff, require_eq_ok_iff,
    pure_eq_ok, Except.ok.injEq] at h
  obtain ⟨_, -, _, -, _, -, -, _, -, _, -, -, _, -, _, -, ctx, -, _, -, _, -, _, -, added, -,
    rules, hrules, built, hbuilt, rfl⟩ := h
  refine ⟨added.1, _, ⟨rules⟩, added.2, built, ctx, fun rule hrule ↦ ?_, hbuilt, rfl⟩
  obtain ⟨e, -, he⟩ := exists_left_of_mem (mapM_eq_ok_iff.mp hrules) hrule
  exact exists_build_of_readRule he

end FuzzyInference.FisText
