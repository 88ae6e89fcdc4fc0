import FuzzyInference.CSource.Degree
import FuzzyInference.Proofs.Fault.Result
import FuzzyInference.Proofs.Registry.Lookup

/-!
# Corresponding propositions

Two propositions correspond if they are built alike and their handles, place by place, are related.
When related handles stand for the same variable of two registries, corresponding propositions have
the same degrees, the same checks and the same expressions, faults included.
-/

namespace FuzzyInference

variable {α : Type} [Scalar α]

/-- Two handles stand for the same in two registries: for equal variables, or both for none. -/
def Registry.SameAt (r r' : Registry α) (h k : Handle) : Prop := r.get h = r'.get k

namespace Proposition

mutual

/-- Two propositions are built alike, and their handles are related. -/
inductive Corresponds (related : Handle → Handle → Prop) : Proposition → Proposition → Prop
  | is {h k : Handle} {label : String} :
    related h k → Corresponds related (is h label) (is k label)
  | isNot {h k : Handle} {label : String} :
    related h k → Corresponds related (isNot h label) (isNot k label)
  | not {p q : Proposition} : Corresponds related p q → Corresponds related (not p) (not q)
  | and {ps qs : List Proposition} :
    CorrespondAll related ps qs → Corresponds related (and ps) (and qs)
  | or {ps qs : List Proposition} :
    CorrespondAll related ps qs → Corresponds related (or ps) (or qs)

/-- Two lists hold corresponding propositions. -/
inductive CorrespondAll (related : Handle → Handle → Prop) :
    List Proposition → List Proposition → Prop
  | nil : CorrespondAll related [] []
  | cons {p q : Proposition} {ps qs : List Proposition} :
    Corresponds related p q → CorrespondAll related ps qs →
      CorrespondAll related (p :: ps) (q :: qs)

end

/-- Corresponding lists are empty together. -/
theorem CorrespondAll.isEmpty_eq {related : Handle → Handle → Prop} {ps qs : List Proposition}
    (h : CorrespondAll related ps qs) : qs.isEmpty = ps.isEmpty := by
  cases h <;> rfl

mutual

/-- Related handles may be related more weakly. -/
theorem Corresponds.mono {R S : Handle → Handle → Prop} (hm : ∀ h k, R h k → S h k)
    {p q : Proposition} : Corresponds R p q → Corresponds S p q
  | .is hr => .is (hm _ _ hr)
  | .isNot hr => .isNot (hm _ _ hr)
  | .not h => .not (h.mono hm)
  | .and hs => .and (hs.mono hm)
  | .or hs => .or (hs.mono hm)

/-- Related handles in lists may be related more weakly. -/
theorem CorrespondAll.mono {R S : Handle → Handle → Prop} (hm : ∀ h k, R h k → S h k)
    {ps qs : List Proposition} : CorrespondAll R ps qs → CorrespondAll S ps qs
  | .nil => .nil
  | .cons h hs => .cons (h.mono hm) (hs.mono hm)

end

mutual

/-- Related handles and equal labels stand in the valuations of corresponding propositions. -/
theorem Corresponds.valuations {related : Handle → Handle → Prop} {p q : Proposition} :
    Corresponds related p q →
      List.Forall₂ (fun a b ↦ related a.1 b.1 ∧ a.2 = b.2) p.valuations q.valuations
  | .is hr => .cons ⟨hr, rfl⟩ .nil
  | .isNot hr => .cons ⟨hr, rfl⟩ .nil
  | .not h => h.valuations
  | .and hs => hs.valuations
  | .or hs => hs.valuations

/-- Related handles and equal labels stand in the valuations of corresponding lists. -/
theorem CorrespondAll.valuations {related : Handle → Handle → Prop} {ps qs : List Proposition} :
    CorrespondAll related ps qs →
      List.Forall₂ (fun a b ↦ related a.1 b.1 ∧ a.2 = b.2) (valuationsAll ps) (valuationsAll qs)
  | .nil => .nil
  | .cons h hs => List.rel_append h.valuations hs.valuations

end

section SameVariables

variable {r r' : Registry α}

/-- A valuation depends on its handle only through the variable. -/
theorem valuation_of_sameAt {h k : Handle} (hs : r.SameAt r' h k) (inputs : Assignment α)
    (ctx : Context) (label : String) :
    valuation r' inputs ctx k label = valuation r inputs ctx h label := by
  simp only [valuation, show r.get h = r'.get k from hs]

/-- The check of a label depends on its handle only through the variable. -/
theorem validateLabel_of_sameAt {h k : Handle} (hs : r.SameAt r' h k) (label : String) :
    validateLabel r' k label = validateLabel r h label := by
  simp only [validateLabel, Registry.labelSet, show r.get h = r'.get k from hs]

mutual

/-- Corresponding propositions hold to the same degree. -/
theorem Corresponds.degree_eq {p q : Proposition} (inputs : Assignment α) (ctx : Context) :
    Corresponds (r.SameAt r') p q → q.degree r' inputs ctx = p.degree r inputs ctx
  | .is hr => by simp only [degree, valuation_of_sameAt hr]
  | .isNot hr => by simp only [degree, valuation_of_sameAt hr]
  | .not h => by simp only [degree, h.degree_eq inputs ctx]
  | .and hs => by simp only [degree, hs.degrees_eq inputs ctx]
  | .or hs => by simp only [degree, hs.degrees_eq inputs ctx]

/-- Corresponding lists hold to the same degrees. -/
theorem CorrespondAll.degrees_eq {ps qs : List Proposition} (inputs : Assignment α)
    (ctx : Context) :
    CorrespondAll (r.SameAt r') ps qs → degrees r' inputs ctx qs = degrees r inputs ctx ps
  | .nil => rfl
  | .cons h hs => by simp only [degrees, h.degree_eq inputs ctx, hs.degrees_eq inputs ctx]

end

mutual

/-- Corresponding propositions are valid together. -/
theorem Corresponds.validate_eq {p q : Proposition} :
    Corresponds (r.SameAt r') p q → q.validate r' = p.validate r
  | .is hr => by simp only [validate, validateLabel_of_sameAt hr]
  | .isNot hr => by simp only [validate, validateLabel_of_sameAt hr]
  | .not h => by simp only [validate, h.validate_eq]
  | .and hs => by simp only [validate, hs.isEmpty_eq, hs.validateAll_eq]
  | .or hs => by simp only [validate, hs.isEmpty_eq, hs.validateAll_eq]

/-- Corresponding lists are valid together. -/
theorem CorrespondAll.validateAll_eq {ps qs : List Proposition} :
    CorrespondAll (r.SameAt r') ps qs → validateAll r' qs = validateAll r ps
  | .nil => rfl
  | .cons h hs => by simp only [validateAll, h.validate_eq, hs.validateAll_eq]

end

mutual

/-- Corresponding propositions are rendered by the same expression. -/
theorem Corresponds.expression_eq {p q : Proposition} (ctx : Context) :
    Corresponds (r.SameAt r') p q → CSource.proposition r' ctx q = CSource.proposition r ctx p
  | .is hr => by simp only [CSource.proposition, CSource.valuation, show r.get _ = r'.get _ from hr]
  | .isNot hr => by
    simp only [CSource.proposition, CSource.valuation, show r.get _ = r'.get _ from hr]
  | .not h => by simp only [CSource.proposition, h.expression_eq ctx]
  | .and hs => by simp only [CSource.proposition, hs.expressions_eq ctx]
  | .or hs => by simp only [CSource.proposition, hs.expressions_eq ctx]

/-- Corresponding lists are rendered by the same expressions. -/
theorem CorrespondAll.expressions_eq {ps qs : List Proposition} (ctx : Context) :
    CorrespondAll (r.SameAt r') ps qs →
      CSource.propositions r' ctx qs = CSource.propositions r ctx ps
  | .nil => rfl
  | .cons h hs => by simp only [CSource.propositions, h.expression_eq ctx, hs.expressions_eq ctx]

end

end SameVariables

end Proposition

end FuzzyInference
