import FuzzyInference.Proofs.Proposition.Statement
import FuzzyInference.RuleBase.Basic

/-!
# Corresponding rules

Two rules correspond if their conditions do, their targets are related and they agree on the label
and the weight. Rules of two registries that state the same correspond, and corresponding rules put
out the same sets and are rendered by the same expressions.
-/

namespace FuzzyInference

open Result

variable {α : Type}

namespace Rule

/-- Two rules are built alike, and their handles are related. -/
structure Corresponds (related : Handle → Handle → Prop) (a b : Rule α) : Prop where
  /-- The conditions correspond. -/
  antecedent : Proposition.Corresponds related a.antecedent b.antecedent
  /-- The targets are related. -/
  target : related a.target b.target
  /-- The labels are equal. -/
  label : a.label = b.label
  /-- The weights are equal. -/
  weight : a.weight = b.weight

/-- Related handles may be related more weakly. -/
theorem Corresponds.mono {R S : Handle → Handle → Prop} (hm : ∀ h k, R h k → S h k)
    {a b : Rule α} (h : Corresponds R a b) : Corresponds S a b :=
  ⟨h.antecedent.mono hm, hm _ _ h.target, h.label, h.weight⟩

variable [Scalar α]

section SameVariables

variable {r r' : Registry α} {a b : Rule α}

/-- Corresponding rules are valid together. -/
theorem Corresponds.validate_eq (h : Corresponds (r.SameAt r') a b) :
    b.validate r' = a.validate r := by
  simp only [Rule.validate, h.antecedent.validate_eq, ← h.label,
    Proposition.validateLabel_of_sameAt h.target]

/-- Corresponding rules put out the same set. -/
theorem Corresponds.output_eq (h : Corresponds (r.SameAt r') a b) (inputs : Assignment α)
    (ctx : Context) : b.output r' inputs ctx = a.output r inputs ctx := by
  simp only [Rule.output, Registry.labelSet, h.antecedent.degree_eq inputs ctx, ← h.label,
    ← h.weight, show r.get a.target = r'.get b.target from h.target]

/-- Corresponding rules are rendered by the same expression. -/
theorem Corresponds.expression_eq (h : Corresponds (r.SameAt r') a b) (ctx : Context)
    (target : String) : CSource.rule r' ctx target b = CSource.rule r ctx target a := by
  simp only [CSource.rule, Registry.labelSet, h.antecedent.expression_eq ctx, ← h.label,
    ← h.weight, show r.get a.target = r'.get b.target from h.target]

end SameVariables

/-- What a rule is described by. -/
theorem describe_eq_ok_iff {r : Registry α} {rule : Rule α} {s : RuleStatement α} :
    rule.describe r = .ok s ↔
      Proposition.States r rule.antecedent s.antecedent ∧
        Proposition.States r rule.consequent s.consequent ∧ rule.weight = s.weight := by
  simp only [describe, bind_eq_ok_iff, pure_eq_ok, Except.ok.injEq]
  constructor
  · rintro ⟨_, ha, _, hc, rfl⟩
    exact ⟨Proposition.states_of_describe ha, Proposition.states_of_describe hc, rfl⟩
  · rintro ⟨ha, hc, hw⟩
    exact ⟨_, ha.describe_eq, _, hc.describe_eq, by rw [hw]⟩

/-- Rules that state the same correspond, through the names of their variables. -/
theorem corresponds_of_describe {r r' : Registry α} {a b : Rule α} {s : RuleStatement α}
    (ha : a.describe r = .ok s) (hb : b.describe r' = .ok s) :
    Corresponds (r.SameName r') a b := by
  obtain ⟨haa, hac, haw⟩ := describe_eq_ok_iff.mp ha
  obtain ⟨hba, hbc, hbw⟩ := describe_eq_ok_iff.mp hb
  have hc := hac.corresponds hbc
  cases a
  cases b
  cases hc with
  | is ht => exact ⟨haa.corresponds hba, ht, rfl, haw.trans hbw.symm⟩

/-- What building a rule asks for and gives. -/
theorem build_eq_ok_iff {antecedent consequent : Proposition} {weight : α} {rule : Rule α} :
    build antecedent consequent weight = .ok rule ↔
      (0 < weight ∧ weight ≤ 1) ∧ rule.antecedent = antecedent ∧
        rule.consequent = consequent ∧ rule.weight = weight := by
  cases rule
  unfold build
  split
  · next hw =>
    split
    · simp only [hw, Rule.consequent, Except.ok.injEq, mk.injEq, Proposition.is.injEq]
      constructor
      · rintro ⟨rfl, rfl, rfl, rfl⟩
        exact ⟨⟨trivial, trivial⟩, rfl, ⟨rfl, rfl⟩, rfl⟩
      · rintro ⟨_, rfl, ⟨rfl, rfl⟩, rfl⟩
        exact ⟨rfl, rfl, rfl, rfl⟩
    · next hc =>
      simp only [reduceCtorEq, Rule.consequent, false_iff, not_and]
      intro _ _ he
      exact absurd he.symm (hc _ _)
  · next hw => simp [hw]

/-- What the check of a rule asks for. -/
theorem validate_eq_ok_iff {r : Registry α} {rule : Rule α} {u : Unit} :
    rule.validate r = .ok u ↔
      rule.antecedent.validate r = .ok () ∧
        Proposition.validateLabel r rule.target rule.label = .ok () := by
  rw [validate, check_bind_eq_ok_iff]

end Rule

namespace RuleStatement

variable [Scalar α]

/-- What resolving the statement of a rule asks for and gives. -/
theorem resolve_eq_ok_iff {r : Registry α} {s : RuleStatement α} {rule : Rule α} :
    s.resolve r = .ok rule ↔
      s.antecedent.resolve r = .ok rule.antecedent ∧ s.consequent.resolve r = .ok rule.consequent ∧
        (0 < s.weight ∧ s.weight ≤ 1) ∧ rule.weight = s.weight ∧ rule.validate r = .ok () := by
  simp only [resolve, bind_eq_ok_iff, pure_eq_ok, Except.ok.injEq, Rule.build_eq_ok_iff]
  constructor
  · rintro ⟨_, ha, _, hc, rule, ⟨hw, rfl, rfl, hrw⟩, _, hv, rfl⟩
    exact ⟨ha, hc, hw, hrw, hv⟩
  · rintro ⟨ha, hc, hw, hrw, hv⟩
    exact ⟨_, ha, _, hc, rule, ⟨hw, rfl, rfl, hrw⟩, (), hv, rfl⟩

/-- A resolved rule states what it was resolved from. -/
theorem describe_of_resolve {r : Registry α} {s : RuleStatement α} {rule : Rule α}
    (hr : s.resolve r = .ok rule) : rule.describe r = .ok s := by
  obtain ⟨ha, hc, _, hw, _⟩ := resolve_eq_ok_iff.mp hr
  exact Rule.describe_eq_ok_iff.mpr
    ⟨Statement.states_of_resolve ha, Statement.states_of_resolve hc, hw⟩

/-- The statement of a valid rule resolves in every registry with the variables that the rule is
about, if that has no others. -/
theorem exists_resolve {r r' : Registry α} {rule : Rule α} {s : RuleStatement α}
    (hsub : ∀ w ∈ r'.members, w ∈ r.members) (hd : rule.describe r = .ok s)
    (hw : 0 < rule.weight ∧ rule.weight ≤ 1) (hv : rule.validate r = .ok ())
    (hm : ∀ a ∈ rule.antecedent.valuations, ∀ v, r.get a.1 = .ok v → v ∈ r'.members)
    (ht : ∀ v, r.get rule.target = .ok v → v ∈ r'.members) :
    ∃ resolved, s.resolve r' = .ok resolved := by
  obtain ⟨ha, hc, hsw⟩ := Rule.describe_eq_ok_iff.mp hd
  obtain ⟨hva, hvc⟩ := Rule.validate_eq_ok_iff.mp hv
  obtain ⟨p, hp⟩ := Statement.exists_resolve ha hva hm
  obtain ⟨q, hq⟩ := Statement.exists_resolve hc hvc
    (by simpa [Rule.consequent, Proposition.valuations] using ht)
  have hcc := hc.corresponds (Statement.states_of_resolve hq)
  cases hcc with
  | @is _ k _ hn =>
    have hcorr : Rule.Corresponds (r.SameAt r') rule ⟨p, k, rule.label, s.weight⟩ :=
      ⟨(ha.corresponds (Statement.states_of_resolve hp)).mono (fun _ _ hn ↦ hn.sameAt hsub),
        hn.sameAt hsub, rfl, hsw⟩
    exact ⟨⟨p, k, rule.label, s.weight⟩, resolve_eq_ok_iff.mpr
      ⟨hp, hq, hsw ▸ hw, rfl, hcorr.validate_eq.trans hv⟩⟩

end RuleStatement

end FuzzyInference
