import FuzzyInference.Proofs.FuzzySystem.Description
import FuzzyInference.Proofs.Proposition.Resolution

/-!
# Resolved rules

Rules and rule bases are described and resolved like their propositions: over one registry, the two
are inverse to each other. A rule that can be built keeps its weight and its conclusion through its
statement, and the rules of a base do so one by one, in order.
-/

namespace FuzzyInference

open Result

variable {α : Type} [Scalar α] {r : Registry α}

/-- A valid proposition has a statement. -/
theorem Proposition.exists_describe {p : Proposition} (hvalid : p.validate r = .ok ()) :
    ∃ s, p.describe r = .ok s := by
  obtain ⟨s, hs⟩ := exists_states hvalid
  exact ⟨s, hs.describe_eq⟩

namespace Rule

/-- A valid rule that can be built. -/
def Sound (r : Registry α) (rule : Rule α) : Prop :=
  rule.validate r = .ok () ∧ 0 < rule.weight ∧ rule.weight ≤ 1

/-- A valid rule has a statement. -/
theorem exists_describe {rule : Rule α} (hvalid : rule.validate r = .ok ()) :
    ∃ s, rule.describe r = .ok s := by
  obtain ⟨hantecedent, hlabel⟩ := validate_eq_ok_iff.mp hvalid
  obtain ⟨a, ha⟩ := Proposition.exists_states hantecedent
  obtain ⟨c, hc⟩ := Proposition.exists_states (p := rule.consequent) hlabel
  exact ⟨⟨a, c, rule.weight⟩, describe_eq_ok_iff.mpr ⟨ha, hc, rfl⟩⟩

end Rule

namespace RuleStatement

/-- A statement resolves to a rule exactly when that is valid, can be built and is described by the
statement. -/
theorem resolve_eq_ok_iff_describe {s : RuleStatement α} {rule : Rule α} :
    s.resolve r = .ok rule ↔ rule.Sound r ∧ rule.describe r = .ok s := by
  constructor
  · intro h
    obtain ⟨-, -, hbound, hweight, hvalid⟩ := resolve_eq_ok_iff.mp h
    exact ⟨⟨hvalid, hweight ▸ hbound⟩, describe_of_resolve h⟩
  · rintro ⟨⟨hvalid, hbound⟩, hdescribe⟩
    obtain ⟨hantecedent, hconsequent, hweight⟩ := Rule.describe_eq_ok_iff.mp hdescribe
    obtain ⟨hantecedentValid, hlabel⟩ := Rule.validate_eq_ok_iff.mp hvalid
    refine resolve_eq_ok_iff.mpr ⟨?_, ?_, hweight ▸ hbound, hweight, hvalid⟩
    · exact Statement.resolve_eq_ok_iff.mpr ⟨hantecedentValid, hantecedent.describe_eq⟩
    · exact Statement.resolve_eq_ok_iff.mpr ⟨hlabel, hconsequent.describe_eq⟩

end RuleStatement

namespace RuleBaseStatement

/-- Statements resolve to a rule base exactly when its rules, one by one, are valid, can be built
and are described by the statements. -/
theorem resolve_eq_ok_iff_describe {s : RuleBaseStatement α} {base : RuleBase α} :
    s.resolve r = .ok base ↔ (∀ rule ∈ base.rules, rule.Sound r) ∧ base.describe r = .ok s := by
  rw [resolve_eq_ok_iff, RuleBase.describe_eq_ok_iff, ← List.forall₂_and_left]
  constructor
  · exact fun h ↦ h.flip.imp fun _ _ ↦ RuleStatement.resolve_eq_ok_iff_describe.mp
  · exact fun h ↦ (h.imp fun _ _ ↦ RuleStatement.resolve_eq_ok_iff_describe.mpr).flip

end RuleBaseStatement

/-- The rules of a base have statements, one by one. -/
theorem RuleBase.exists_describe {base : RuleBase α}
    (hvalid : ∀ rule ∈ base.rules, rule.validate r = .ok ()) :
    ∃ s, base.describe r = .ok s := by
  obtain ⟨statements, h⟩ := exists_mapM fun rule hrule ↦ Rule.exists_describe (hvalid rule hrule)
  exact ⟨⟨statements⟩, describe_eq_ok_iff.mpr (mapM_eq_ok_iff.mp h)⟩

/-! ### Main results -/

/-- Over one registry, describing and resolving are inverse to each other. Valid propositions, valid
rules that can be built, and lists of such rules are described, and their descriptions resolve to
just them; whatever resolves does so to what it describes. A statement resolves exactly when every
variable in it is registered and has the label, every negation has one operand and no combination is
empty. -/
theorem Registry.describing_inverts_resolving (r : Registry α) :
    (∀ p : Proposition, p.validate r = .ok () ↔
      ∃ s, p.describe r = .ok s ∧ s.resolve r = .ok p) ∧
    (∀ (s : Statement) (p : Proposition),
      s.resolve r = .ok p ↔ p.validate r = .ok () ∧ p.describe r = .ok s) ∧
    (∀ rule : Rule α, rule.Sound r ↔
      ∃ s, rule.describe r = .ok s ∧ s.resolve r = .ok rule) ∧
    (∀ (s : RuleStatement α) (rule : Rule α),
      s.resolve r = .ok rule ↔ rule.Sound r ∧ rule.describe r = .ok s) ∧
    (∀ base : RuleBase α, (∀ rule ∈ base.rules, rule.Sound r) ↔
      ∃ s, base.describe r = .ok s ∧ s.resolve r = .ok base ∧
        List.Forall₂ (fun rule statement ↦ rule.describe r = .ok statement ∧
          statement.resolve r = .ok rule) base.rules s.rules) ∧
    (∀ (s : RuleBaseStatement α) (base : RuleBase α),
      s.resolve r = .ok base ↔ (∀ rule ∈ base.rules, rule.Sound r) ∧ base.describe r = .ok s) ∧
    ∀ s : Statement, (∃ p, s.resolve r = .ok p) ↔ s.WellFormed r := by
  refine ⟨fun p ↦ ⟨fun hvalid ↦ ?_, ?_⟩, fun _ _ ↦ Statement.resolve_eq_ok_iff,
    fun rule ↦ ⟨fun hsound ↦ ?_, ?_⟩, fun _ _ ↦ RuleStatement.resolve_eq_ok_iff_describe,
    fun base ↦ ⟨fun hsound ↦ ?_, ?_⟩, fun _ _ ↦ RuleBaseStatement.resolve_eq_ok_iff_describe,
    fun _ ↦ Statement.exists_resolve_iff⟩
  · obtain ⟨s, hs⟩ := Proposition.exists_describe hvalid
    exact ⟨s, hs, Statement.resolve_eq_ok_iff.mpr ⟨hvalid, hs⟩⟩
  · rintro ⟨s, -, hs⟩
    exact (Statement.resolve_eq_ok_iff.mp hs).1
  · obtain ⟨s, hs⟩ := Rule.exists_describe hsound.1
    exact ⟨s, hs, RuleStatement.resolve_eq_ok_iff_describe.mpr ⟨hsound, hs⟩⟩
  · rintro ⟨s, -, hs⟩
    exact (RuleStatement.resolve_eq_ok_iff_describe.mp hs).1
  · obtain ⟨s, hs⟩ := RuleBase.exists_describe fun rule hrule ↦ (hsound rule hrule).1
    have hresolve := RuleBaseStatement.resolve_eq_ok_iff_describe.mpr ⟨hsound, hs⟩
    refine ⟨s, hs, hresolve, ?_⟩
    exact (RuleBaseStatement.resolve_eq_ok_iff.mp hresolve).flip.imp
      fun _ _ h ↦ ⟨RuleStatement.describe_of_resolve h, h⟩
  · rintro ⟨s, -, hs, -⟩
    exact (RuleBaseStatement.resolve_eq_ok_iff_describe.mp hs).1

end FuzzyInference
