import FuzzyInference.Proofs.FuzzySystem.Degree
import FuzzyInference.Proofs.Operator.Duality

/-!
# Negation normal form

Negations are pushed inwards until they meet valuations: the negation of a conjunction becomes the
disjunction of the negated parts, and the other way round. Under a context whose conjunction and
disjunction are dual, the normal form holds to the same degree as the proposition it was made from,
and fails with the same fault, whatever the degrees of the labels are.
-/

namespace FuzzyInference

open Result

namespace Proposition

mutual

/-- A proposition, or its negation, without negations other than those of valuations. -/
def normalForm (negated : Bool) : Proposition → Proposition
  | is h label => if negated then isNot h label else is h label
  | isNot h label => if negated then is h label else isNot h label
  | not p => normalForm (!negated) p
  | and ps => if negated then or (normalForms negated ps) else and (normalForms negated ps)
  | or ps => if negated then and (normalForms negated ps) else or (normalForms negated ps)

/-- Several propositions, or their negations, in their order. -/
def normalForms (negated : Bool) : List Proposition → List Proposition
  | [] => []
  | p :: ps => normalForm negated p :: normalForms negated ps

end

/-- A proposition without negations other than those of valuations. -/
def negationNormalForm (p : Proposition) : Proposition := p.normalForm false

mutual

/-- Only valuations are negated. -/
def InNormalForm : Proposition → Prop
  | is _ _ | isNot _ _ => True
  | not _ => False
  | and ps | or ps => AllInNormalForm ps

/-- Only valuations are negated in a list. -/
def AllInNormalForm : List Proposition → Prop
  | [] => True
  | p :: ps => InNormalForm p ∧ AllInNormalForm ps

end

mutual

/-- Normal forms are in normal form. -/
theorem inNormalForm_normalForm (negated : Bool) : (p : Proposition) →
    (normalForm negated p).InNormalForm
  | is _ _ | isNot _ _ => by cases negated <;> trivial
  | not p => inNormalForm_normalForm (!negated) p
  | and ps | or ps => by cases negated <;> exact allInNormalForm_normalForms _ ps

/-- Lists of normal forms are in normal form. -/
theorem allInNormalForm_normalForms (negated : Bool) : (ps : List Proposition) →
    AllInNormalForm (normalForms negated ps)
  | [] => trivial
  | p :: ps => ⟨inNormalForm_normalForm negated p, allInNormalForm_normalForms negated ps⟩

end

mutual

/-- The normal form has the valuations of the proposition, in order. -/
theorem valuations_normalForm (negated : Bool) : (p : Proposition) →
    (normalForm negated p).valuations = p.valuations
  | is _ _ | isNot _ _ => by cases negated <;> rfl
  | not p => valuations_normalForm (!negated) p
  | and ps | or ps => by cases negated <;> exact valuationsAll_normalForms _ ps

/-- Lists of normal forms have the valuations of the propositions, in order. -/
theorem valuationsAll_normalForms (negated : Bool) : (ps : List Proposition) →
    valuationsAll (normalForms negated ps) = valuationsAll ps
  | [] => rfl
  | p :: ps => by
    simp only [normalForms, valuationsAll, valuations_normalForm negated p,
      valuationsAll_normalForms negated ps]

end

/-! ### Degrees -/

/-- A degree, or its complement. -/
noncomputable def turned (negated : Bool) (d : Exact) : Exact := if negated then 1 - d else d

/-- What is not turned stays. -/
theorem turned_false : turned false = id := rfl

/-- Turning a complement is turning the degree the other way. -/
theorem turned_one_sub (negated : Bool) (d : Exact) :
    turned negated (1 - d) = turned (!negated) d := by
  cases negated with
  | false => rfl
  | true => exact Exact.one_sub_one_sub_self

section Degrees

variable {r : Registry Exact} {inputs : Assignment Exact} {ctx : Context}

/-- A conjunction is turned into that of the turned degrees, or into their disjunction. -/
theorem turned_conjunction (hdual : ctx.disjunction = ctx.conjunction.dual) (negated : Bool)
    (ds : List Exact) :
    turned negated (ctx.conjunction.combine ds) =
      if negated then ctx.disjunction.combine (ds.map (turned negated))
      else ctx.conjunction.combine (ds.map (turned negated)) := by
  cases negated with
  | false => rw [turned_false, List.map_id, if_neg Bool.false_ne_true, id]
  | true =>
    rw [if_pos rfl, hdual]
    exact ctx.conjunction.one_sub_combine ds

/-- A disjunction is turned into that of the turned degrees, or into their conjunction. -/
theorem turned_disjunction (hdual : ctx.disjunction = ctx.conjunction.dual) (negated : Bool)
    (ds : List Exact) :
    turned negated (ctx.disjunction.combine ds) =
      if negated then ctx.conjunction.combine (ds.map (turned negated))
      else ctx.disjunction.combine (ds.map (turned negated)) := by
  cases negated with
  | false => rw [turned_false, List.map_id, if_neg Bool.false_ne_true, id]
  | true =>
    rw [if_pos rfl, hdual]
    exact ctx.conjunction.one_sub_combine_dual ds

mutual

/-- The normal form holds to the turned degree of the proposition. -/
theorem degree_normalForm (hdual : ctx.disjunction = ctx.conjunction.dual) (negated : Bool) :
    (p : Proposition) →
      (normalForm negated p).degree r inputs ctx = turned negated <$> p.degree r inputs ctx
  | is h label => by
    cases negated with
    | false => simp only [normalForm, turned_false, id_map, if_neg Bool.false_ne_true]
    | true => rfl
  | isNot h label => by
    cases negated with
    | false => simp only [normalForm, turned_false, id_map, if_neg Bool.false_ne_true]
    | true =>
      simp only [normalForm, degree, bind_pure_comp, Functor.map_map, turned_one_sub]
      exact (id_map _).symm
  | not p => by
    simp only [normalForm, degree, degree_normalForm hdual (!negated) p, bind_pure_comp,
      Functor.map_map, turned_one_sub]
  | and ps => by
    have hds := degrees_normalForms hdual negated ps
    simp only [degree, bind_pure_comp, Functor.map_map, turned_conjunction hdual]
    cases negated with
    | false | true =>
      simp only [normalForm, degree, hds, bind_pure_comp, Functor.map_map, Bool.false_eq_true,
        if_true, if_false]
  | or ps => by
    have hds := degrees_normalForms hdual negated ps
    simp only [degree, bind_pure_comp, Functor.map_map, turned_disjunction hdual]
    cases negated with
    | false | true =>
      simp only [normalForm, degree, hds, bind_pure_comp, Functor.map_map, Bool.false_eq_true,
        if_true, if_false]

/-- Normal forms hold to the turned degrees of the propositions. -/
theorem degrees_normalForms (hdual : ctx.disjunction = ctx.conjunction.dual) (negated : Bool) :
    (ps : List Proposition) →
      degrees r inputs ctx (normalForms negated ps) =
        List.map (turned negated) <$> degrees r inputs ctx ps
  | [] => rfl
  | p :: ps => by
    simp only [normalForms, degrees, degree_normalForm hdual negated p,
      degrees_normalForms hdual negated ps, bind_pure_comp, Functor.map_map, map_bind,
      bind_map_left, List.map_cons]

end

end Degrees

/-! ### Main results -/

/-- One less a disjunction is the dual conjunction of the complements and the other way round, for
all lists of degrees. Under a context whose operators are dual, every proposition therefore has the
degree of its normal form or fails with the same fault; the normal form has the valuations of the
proposition, in their order, and negates nothing else. -/
theorem degree_negationNormalForm :
    (∀ (op : Conjunction) (ds : List Exact),
      1 - op.dual.combine ds = op.combine (ds.map (1 - ·)) ∧
        1 - op.combine ds = op.dual.combine (ds.map (1 - ·))) ∧
    ∀ ctx : Context, ctx.disjunction = ctx.conjunction.dual →
      ∀ (r : Registry Exact) (inputs : Assignment Exact) (p : Proposition),
        p.negationNormalForm.InNormalForm ∧ p.negationNormalForm.valuations = p.valuations ∧
          p.negationNormalForm.degree r inputs ctx = p.degree r inputs ctx := by
  refine ⟨fun op ds ↦ ⟨op.one_sub_combine_dual ds, op.one_sub_combine ds⟩, ?_⟩
  intro ctx hdual r inputs p
  refine ⟨inNormalForm_normalForm false p, valuations_normalForm false p, ?_⟩
  rw [negationNormalForm, degree_normalForm hdual false p, turned_false, id_map]

/-- It is not so that the soil is dry and neither moist nor dry. -/
def soilPuzzle : Proposition :=
  .not (.and [.is ⟨0⟩ "dry", .not (.or [.isNot ⟨0⟩ "dry", .not (.not (.is ⟨0⟩ "dry"))])])

/-- The puzzle comes to its normal form also where sums of degrees are cut off at one and zero. -/
theorem soilPuzzle_negationNormalForm :
    soilPuzzle.negationNormalForm =
        .or [.isNot ⟨0⟩ "dry", .or [.isNot ⟨0⟩ "dry", .is ⟨0⟩ "dry"]] ∧
      Disjunction.boundedSum = Conjunction.lukasiewicz.dual ∧
      soilPuzzle.negationNormalForm.degree FuzzySystem.irrigation.registry (FuzzySystem.moist 40)
          { conjunction := .lukasiewicz, disjunction := .boundedSum } =
        soilPuzzle.degree FuzzySystem.irrigation.registry (FuzzySystem.moist 40)
          { conjunction := .lukasiewicz, disjunction := .boundedSum } :=
  ⟨rfl, rfl, (degree_negationNormalForm.2 _ rfl _ _ soilPuzzle).2.2⟩

end Proposition

end FuzzyInference
