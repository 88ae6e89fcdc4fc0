import FuzzyInference.Proofs.Domain
import FuzzyInference.Proofs.FuzzySystem.Degree
import FuzzyInference.Proofs.Scalar.Reordering

/-!
# Rules in any order

In exact arithmetic the order of the rules does not matter: with the rules in another order a system
has an output whenever it had one, the output gives the same degrees to all points, and it is
reduced to the same point.
-/

namespace FuzzyInference

open Result

/-- Lists of checks in another order have their results in another order. -/
theorem Result.mapM_of_perm {ε β γ : Type} {f : β → Except ε γ} {xs xs' : List β} {ys : List γ}
    (h : xs.Perm xs') (hys : xs.mapM f = .ok ys) :
    ∃ ys', xs'.mapM f = .ok ys' ∧ ys.Perm ys' := by
  rw [mapM_eq_ok_iff] at hys
  obtain ⟨ys', hys', hperm⟩ := List.perm_comp_forall₂ h.symm hys
  exact ⟨ys', mapM_eq_ok_iff.mpr hys', hperm.symm⟩

/-- With the rules in another order the output gives the same degrees. -/
theorem RuleBase.output_of_perm {r : Registry Exact} {inputs : Assignment Exact} {ctx : Context}
    {base : RuleBase Exact} {rules : List (Rule Exact)} (h : base.rules.Perm rules)
    {set : FuzzySet Exact} (hset : base.output r inputs ctx = .ok set) :
    ∃ set', (RuleBase.mk rules).output r inputs ctx = .ok set' ∧
      ∀ sampling x, set'.degree sampling x = set.degree sampling x := by
  obtain ⟨sets, hsets, heq⟩ := bind_eq_ok_iff.mp hset
  obtain ⟨sets', hsets', hperm⟩ := mapM_of_perm h hsets
  refine ⟨.or (some ctx.aggregation) sets', by rw [output, hsets', ok_bind, pure_eq_ok], ?_⟩
  intro sampling x
  cases heq
  rw [FuzzySet.degree, FuzzySet.degree, FuzzySet.degrees_eq_map, FuzzySet.degrees_eq_map]
  exact Disjunction.combine_eq_of_perm _ (hperm.symm.map _)

namespace FuzzySystem

/-- The same system with other rules. -/
def withRules {α : Type} [Scalar α] (s : FuzzySystem α) (rules : List (Rule α)) : FuzzySystem α :=
  { s with rules := ⟨rules⟩ }

variable {s : FuzzySystem Exact} {rules : List (Rule Exact)}

/-- A well-formed system is well-formed with its rules in another order. -/
theorem WellFormed.withRules_of_perm (h : s.rules.rules.Perm rules) (hs : s.WellFormed) :
    (s.withRules rules).WellFormed where
  inputs := hs.inputs
  target := hs.target
  target_not_mem := hs.target_not_mem
  names := hs.names
  members := hs.members
  rules rule hrule := by
    obtain ⟨htarget, hlabel, hweight, hantecedent, hreads⟩ := hs.rules rule (h.mem_iff.mpr hrule)
    exact ⟨htarget, hlabel, hweight, hantecedent, hreads⟩

/-- With the rules in another order there is a crisp output whenever there was one, and the same. -/
theorem crisp_of_perm (h : s.rules.rules.Perm rules) {inputs : Assignment Exact} {ctx : Context}
    {y : Point Exact} (hy : s.crisp inputs ctx = .ok y) :
    (s.withRules rules).crisp inputs ctx = .ok y := by
  obtain ⟨set, hset, hy⟩ := bind_eq_ok_iff.mp hy
  obtain ⟨set', hset', hdegree⟩ :=
    RuleBase.output_of_perm h (mapError_eq_ok_iff.mp hset)
  refine bind_eq_ok_iff.mpr ⟨set', mapError_eq_ok_iff.mpr hset', ?_⟩
  obtain ⟨v, hv, hy⟩ := bind_eq_ok_iff.mp hy
  refine bind_eq_ok_iff.mpr ⟨v, hv, ?_⟩
  rw [Domain.defuzzify_eq_reduce] at hy ⊢
  rw [← hy]
  simp only [hdegree]

/-! ### Main results -/

/-- With its rules in any other order, a well-formed system is well-formed, has an output exactly if
it had one, whose degrees are the same at all points under every context that it is sampled in, and
has a crisp output exactly if it had one, which is the same under every context. -/
theorem reordered_rules_behave_alike (h : s.rules.rules.Perm rules) (inputs : Assignment Exact)
    (ctx : Context) :
    (s.WellFormed ↔ (s.withRules rules).WellFormed) ∧
    ((∃ set, s.output inputs ctx = .ok set) ↔
      ∃ set, (s.withRules rules).output inputs ctx = .ok set) ∧
    (∀ set set', s.output inputs ctx = .ok set →
      (s.withRules rules).output inputs ctx = .ok set' →
        ∀ sampling x, set'.degree sampling x = set.degree sampling x) ∧
    ∀ y, s.crisp inputs ctx = .ok y ↔ (s.withRules rules).crisp inputs ctx = .ok y := by
  have hback : (s.withRules rules).rules.rules.Perm s.rules.rules := h.symm
  have hs : (s.withRules rules).withRules s.rules.rules = s := rfl
  refine ⟨⟨fun hw ↦ hw.withRules_of_perm h, fun hw ↦ ?_⟩, ⟨?_, ?_⟩, ?_,
    fun y ↦ ⟨crisp_of_perm h, crisp_of_perm hback⟩⟩
  · rw [← hs]
    exact hw.withRules_of_perm hback
  · rintro ⟨set, hset⟩
    obtain ⟨set', hset', -⟩ := RuleBase.output_of_perm h hset
    exact ⟨set', hset'⟩
  · rintro ⟨set', hset'⟩
    obtain ⟨set, hset, -⟩ := RuleBase.output_of_perm hback hset'
    exact ⟨set, hset⟩
  · intro set set' hset hset'
    obtain ⟨other, hother, hdegree⟩ := RuleBase.output_of_perm h hset
    cases Except.ok.inj (hother.symm.trans hset')
    exact hdegree

/-- What dry soil is watered for at least. -/
noncomputable def thorough : Rule Exact := ⟨.is ⟨0⟩ "dry", ⟨1⟩, "long", 1⟩

/-- A second rule may as well come first where soil is watered. -/
theorem irrigation_reordered :
    ∃ rule, irrigation.rules.rules = [rule] ∧ [rule, thorough].Perm [thorough, rule] ∧
      ∃ set set',
        (irrigation.withRules [rule, thorough]).output (moist 40)
          { aggregation := .boundedSum } = .ok set ∧
        (irrigation.withRules [thorough, rule]).output (moist 40)
          { aggregation := .boundedSum } = .ok set' ∧
        ∀ sampling x, set'.degree sampling x = set.degree sampling x := by
  refine ⟨_, rfl, .swap .., _, _, rfl, rfl, ?_⟩
  have hperm : (irrigation.rules.rules ++ [thorough]).Perm ([thorough] ++ irrigation.rules.rules) :=
    List.perm_append_comm
  have hsame := reordered_rules_behave_alike
    (s := irrigation.withRules (irrigation.rules.rules ++ [thorough])) hperm (moist 40)
    { aggregation := .boundedSum }
  exact hsame.2.2.1 _ _ rfl rfl

end FuzzySystem

end FuzzyInference
