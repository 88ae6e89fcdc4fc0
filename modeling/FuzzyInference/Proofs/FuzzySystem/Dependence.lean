import FuzzyInference.Proofs.FuzzySystem.Formula
import FuzzyInference.Proofs.FuzzySystem.Reload

/-!
# What outputs depend on

A system looks at its registry only where its rules and its target point, and at an assignment only
where it gives a value to a variable of some antecedent. Systems that look alike there, with
assignments that do, put out the same sets and the same points, and fail alike.
-/

namespace FuzzyInference

open Result

variable {α : Type} [Scalar α]

namespace Proposition

/-- Two assignments agree on the variables of some valuations: both give the same value, or both
give none. -/
def SameValues (r : Registry α) (a b : Assignment α) (read : List (Handle × String)) : Prop :=
  ∀ valuation ∈ read, ∀ v, r.get valuation.1 = .ok v → b.get v.name = a.get v.name

/-- Assignments that agree on valuations agree on some of them. -/
theorem SameValues.mono {r : Registry α} {a b : Assignment α} {read part : List (Handle × String)}
    (h : SameValues r a b read) (hpart : ∀ valuation ∈ part, valuation ∈ read) :
    SameValues r a b part :=
  fun valuation hm ↦ h valuation (hpart valuation hm)

section Values

variable {r : Registry α} {a b : Assignment α} {ctx : Context}

/-- The degree of a valuation depends on the value of its variable only. -/
theorem SameValues.valuation_eq {h : Handle} {label : String}
    (hs : SameValues r a b [(h, label)]) :
    valuation r b ctx h label = valuation r a ctx h label := by
  unfold valuation
  cases hv : r.get h with
  | error fault => rfl
  | ok v => simp only [ok_bind, hs _ (List.mem_singleton_self _) v hv]

mutual

/-- The degree of a proposition depends on the values of the variables in it only. -/
theorem SameValues.degree_eq : (p : Proposition) → SameValues r a b p.valuations →
    p.degree r b ctx = p.degree r a ctx
  | is h label, hs => hs.valuation_eq
  | isNot h label, hs => by simp only [degree, hs.valuation_eq]
  | not p, hs => by simp only [degree, SameValues.degree_eq p hs]
  | and ps, hs => by simp only [degree, SameValues.degrees_eq ps hs]
  | or ps, hs => by simp only [degree, SameValues.degrees_eq ps hs]

/-- The degrees of propositions depend on the values of the variables in them only. -/
theorem SameValues.degrees_eq : (ps : List Proposition) → SameValues r a b (valuationsAll ps) →
    degrees r b ctx ps = degrees r a ctx ps
  | [], _ => rfl
  | p :: ps, hs => by
    have hp := SameValues.degree_eq p (hs.mono fun _ ↦ List.mem_append_left _)
    have hps := SameValues.degrees_eq ps (hs.mono fun _ ↦ List.mem_append_right _)
    simp only [degrees, hp, hps]

end

end Values

section Registries

variable {related : Handle → Handle → Prop}

mutual

/-- A proposition corresponds to itself if its handles are related to themselves. -/
theorem corresponds_self : (p : Proposition) → (∀ h ∈ p.valuations, related h.1 h.1) →
    Corresponds related p p
  | is _ _, hr => .is (hr _ (List.mem_singleton_self _))
  | isNot _ _, hr => .isNot (hr _ (List.mem_singleton_self _))
  | not p, hr => .not (corresponds_self p hr)
  | and ps, hr => .and (correspondAll_self ps hr)
  | or ps, hr => .or (correspondAll_self ps hr)

/-- Propositions correspond to themselves if their handles are related to themselves. -/
theorem correspondAll_self : (ps : List Proposition) →
    (∀ h ∈ valuationsAll ps, related h.1 h.1) → CorrespondAll related ps ps
  | [], _ => .nil
  | p :: ps, hr =>
    .cons (corresponds_self p fun h hm ↦ hr h (List.mem_append_left _ hm))
      (correspondAll_self ps fun h hm ↦ hr h (List.mem_append_right _ hm))

end

end Registries

end Proposition

/-- The handles that stand in a rule. -/
def Rule.mentioned (rule : Rule α) : List Handle :=
  rule.target :: rule.antecedent.valuations.map Prod.fst

/-- The handles that stand in some rule. -/
def RuleBase.mentioned (base : RuleBase α) : List Handle := base.rules.flatMap Rule.mentioned

section Output

variable {r r' : Registry α} {a b : Assignment α} {ctx : Context}

/-- The output of a rule depends on the values of the variables in its antecedent only. -/
theorem Rule.output_of_sameValues {rule : Rule α}
    (h : Proposition.SameValues r a b rule.antecedent.valuations) :
    rule.output r b ctx = rule.output r a ctx := by
  simp only [output, h.degree_eq]

/-- The output of rules depends on the values of the variables in the antecedents only. -/
theorem RuleBase.output_of_sameValues {base : RuleBase α}
    (h : Proposition.SameValues r a b base.valuations) :
    base.output r b ctx = base.output r a ctx := by
  have hrules : List.Forall₂ (fun rule other ↦ rule.output r b ctx = other.output r a ctx)
      base.rules base.rules := by
    apply List.forall₂_same.mpr
    intro rule hm
    exact Rule.output_of_sameValues (h.mono fun _ hv ↦ List.mem_flatMap.mpr ⟨rule, hm, hv⟩)
  simp only [output, mapM_eq_of_forall₂ hrules]

/-- A rule corresponds to itself in registries that hold the same behind its handles. -/
theorem Rule.corresponds_self {rule : Rule α} (h : ∀ k ∈ rule.mentioned, r.SameAt r' k k) :
    rule.Corresponds (r.SameAt r') rule where
  antecedent := Proposition.corresponds_self rule.antecedent fun k hk ↦
    h k.1 (List.mem_cons_of_mem _ (List.mem_map_of_mem hk))
  target := h rule.target List.mem_cons_self
  label := rfl
  weight := rfl

/-- Rules correspond to themselves in registries that hold the same behind their handles. -/
theorem RuleBase.corresponds_self {base : RuleBase α}
    (h : ∀ k ∈ base.mentioned, r.SameAt r' k k) :
    List.Forall₂ (Rule.Corresponds (r.SameAt r')) base.rules base.rules := by
  apply List.forall₂_same.mpr
  intro rule hm
  exact Rule.corresponds_self fun k hk ↦ h k (List.mem_flatMap.mpr ⟨rule, hm, hk⟩)

/-- Corresponding rules put out the same set, if the assignments agree on what is read. -/
theorem RuleBase.output_of_corresponds {base other : RuleBase α}
    (h : List.Forall₂ (Rule.Corresponds (r.SameAt r')) base.rules other.rules)
    (hvalues : Proposition.SameValues r a b base.valuations) :
    other.output r' b ctx = base.output r a ctx := by
  have hrules := mapM_eq_of_forall₂ (h.imp fun _ _ hr ↦ (hr.output_eq b ctx).symm)
  have hregistries : other.output r' b ctx = base.output r b ctx := by
    simp only [output, hrules]
  rw [hregistries, RuleBase.output_of_sameValues hvalues]

end Output

namespace FuzzySystem

/-- The handles that an output can depend on: the target and those in the rules. -/
def mentioned (s : FuzzySystem α) : List Handle := s.target :: s.rules.mentioned

variable {s g : FuzzySystem α} {a b : Assignment α}

private theorem behaves_alike
    (hrules : List.Forall₂ (Rule.Corresponds (s.registry.SameAt g.registry)) s.rules.rules
      g.rules.rules)
    (htarget : g.targetVariable = s.targetVariable)
    (hvalues : Proposition.SameValues s.registry a b s.rules.valuations) (ctx : Context) :
    g.output b ctx = s.output a ctx ∧ g.crisp b ctx = s.crisp a ctx := by
  have hout : g.output b ctx = s.output a ctx := RuleBase.output_of_corresponds hrules hvalues
  exact ⟨hout, by simp only [crisp, hout, htarget]⟩

/-- Agreeing systems, such as reloaded ones, behave alike on assignments that agree on what is
read. -/
theorem Agree.behaves_alike (h : Agree s g)
    (hvalues : Proposition.SameValues s.registry a b s.rules.valuations) (ctx : Context) :
    g.output b ctx = s.output a ctx ∧ g.crisp b ctx = s.crisp a ctx :=
  FuzzySystem.behaves_alike h.rules h.target hvalues ctx

/-! ### Main results -/

/-- Two systems of the same rules and target behave alike, faults included, under every context, if
their registries hold the same variables behind the handles that are mentioned, and their
assignments agree on the variables that occur in antecedents. Other variables and other values do
not matter, and neither do the inputs and the contexts of the systems themselves. -/
theorem output_depends_on_read (hrules : g.rules = s.rules) (htarget : g.target = s.target)
    (hregistry : ∀ h ∈ s.mentioned, g.registry.get h = s.registry.get h)
    (hvalues : Proposition.SameValues s.registry a b s.rules.valuations) (ctx : Context) :
    g.output b ctx = s.output a ctx ∧ g.crisp b ctx = s.crisp a ctx := by
  have hsame : ∀ h ∈ s.rules.mentioned, s.registry.SameAt g.registry h h :=
    fun h hm ↦ (hregistry h (List.mem_cons_of_mem _ hm)).symm
  have hvariable : g.targetVariable = s.targetVariable := by
    rw [targetVariable, targetVariable, htarget, hregistry s.target List.mem_cons_self]
  have hcorresponds : List.Forall₂ (Rule.Corresponds (s.registry.SameAt g.registry)) s.rules.rules
      g.rules.rules := by
    rw [hrules]
    exact RuleBase.corresponds_self hsame
  exact behaves_alike hcorresponds hvariable hvalues ctx

/-- A variable that no rule mentions. -/
private def wind : Variable Float where
  name := "wind"
  domain := .numeric ⟨"wind", 0, 10, .count 2⟩
  labels := ⟨[("strong", .constant 1)], List.nodup_singleton _⟩

/-- The blinds with the wind registered as well, and listed among the inputs. -/
def windyShading : FuzzySystem Float :=
  { shading with
    registry := .ofMembers (shading.registry.members ++ [wind]) (by decide) <|
      List.forall_mem_append.mpr ⟨shading.registry.validate_eq_ok,
        List.forall_mem_singleton.mpr rfl⟩
    inputs := [⟨0⟩, ⟨2⟩] }

/-- The blinds do not depend on the wind: neither on its being registered nor on its value. -/
theorem windyShading_behaves_alike :
    windyShading.rules = shading.rules ∧ windyShading.target = shading.target ∧
      ∀ ctx : Context,
        windyShading.output (.ofList [("wind", .number 7), ("light", .number 1)]) ctx =
            shading.output (.ofList [("light", .number 1)]) ctx ∧
          windyShading.crisp (.ofList [("wind", .number 7), ("light", .number 1)]) ctx =
            shading.crisp (.ofList [("light", .number 1)]) ctx := by
  have hrules : windyShading.rules = shading.rules := rfl
  have htarget : windyShading.target = shading.target := rfl
  refine ⟨hrules, htarget, fun ctx ↦ output_depends_on_read hrules htarget ?_ ?_ ctx⟩
  · intro h hm
    have hm : h ∈ [(⟨1⟩ : Handle), ⟨1⟩, ⟨0⟩] := hm
    simp only [List.mem_cons, List.not_mem_nil, or_false, or_self_left] at hm
    rcases hm with rfl | rfl <;> rfl
  · intro valuation hm v hv
    cases List.mem_singleton.mp hm
    cases hv
    rfl

end FuzzySystem

end FuzzyInference
