import FuzzyInference.Proofs.FuzzySet.Grouping
import FuzzyInference.Proofs.FuzzySystem.Degree

/-!
# Grouping propositions

Brackets around parts of one connective do not matter, nor does the order of the parts: a
conjunction in a conjunction may be dissolved, a conjunction of one proposition is that proposition,
and so for disjunctions, anywhere in a tree. Without rounding, and with valuations of degrees in the
unit interval, such changes leave the degree of a proposition as it is under every context.
-/

namespace FuzzyInference

open Result Scalar

namespace Proposition

/-- The connectives of several propositions. -/
inductive Connective where
  /-- All propositions hold. -/
  | and
  /-- One of the propositions holds. -/
  | or

/-- Several propositions under a connective. -/
def Connective.join : Connective → List Proposition → Proposition
  | and => Proposition.and
  | or => Proposition.or

/-- The operator that a context gives to a connective. -/
def Connective.operator (ctx : Context) : Connective → Combination
  | and => .all ctx.conjunction
  | or => .any ctx.disjunction

/-- A change of brackets or of the order, at one place of a tree. -/
inductive Regrouping : Proposition → Proposition → Prop
  /-- A combination of one proposition is that proposition. -/
  | drop (c : Connective) (p : Proposition) : Regrouping (c.join [p]) p
  /-- A combination among the parts of one of the same connective is dissolved. -/
  | flatten (c : Connective) (before inner after : List Proposition) :
    Regrouping (c.join (before ++ c.join inner :: after)) (c.join (before ++ inner ++ after))
  /-- The parts of a combination are put in another order. -/
  | permute (c : Connective) {ps qs : List Proposition} :
    ps.Perm qs → Regrouping (c.join ps) (c.join qs)
  /-- The change is made in what is negated. -/
  | not {p q : Proposition} : Regrouping p q → Regrouping (not p) (not q)
  /-- The change is made in a part of a combination. -/
  | within (c : Connective) (before after : List Proposition) {p q : Proposition} :
    Regrouping p q → Regrouping (c.join (before ++ p :: after)) (c.join (before ++ q :: after))

/-- Any number of such changes and of their reversals. -/
def Regrouped : Proposition → Proposition → Prop := Relation.EqvGen Regrouping

/-! ### Groupings of the same parts -/

/-- Changes may be made in a part of a combination. -/
theorem Regrouped.within (c : Connective) (before after : List Proposition) {p q : Proposition}
    (h : Regrouped p q) :
    Regrouped (c.join (before ++ p :: after)) (c.join (before ++ q :: after)) := by
  induction h with
  | rel p q h => exact .rel _ _ (.within c before after h)
  | refl p => exact .refl _
  | symm p q _ ih => exact .symm _ _ ih
  | trans p q s _ _ ihp ihq => exact .trans _ _ _ ihp ihq

mutual

/-- The parts of a proposition under a connective: combinations by this connective, at any depth of
brackets, are taken apart. -/
def parts (c : Connective) : Proposition → List Proposition
  | and ps =>
    match c with
    | .and => partsAll .and ps
    | .or => [and ps]
  | or ps =>
    match c with
    | .and => [or ps]
    | .or => partsAll .or ps
  | is h label => [is h label]
  | isNot h label => [isNot h label]
  | not p => [not p]

/-- The parts of several propositions under a connective, in their order. -/
def partsAll (c : Connective) : List Proposition → List Proposition
  | [] => []
  | p :: ps => parts c p ++ partsAll c ps

end

mutual

/-- A proposition is a grouping of its parts. -/
theorem regrouped_parts (c : Connective) : (p : Proposition) → Regrouped (c.join (p.parts c)) p
  | and ps => by
    cases c with
    | and => exact regrouped_partsAll .and [] ps
    | or => exact .rel _ _ (.drop .or (and ps))
  | or ps => by
    cases c with
    | and => exact .rel _ _ (.drop .and (or ps))
    | or => exact regrouped_partsAll .or [] ps
  | is _ _ => .rel _ _ (.drop c _)
  | isNot _ _ => .rel _ _ (.drop c _)
  | not _ => .rel _ _ (.drop c _)

/-- Propositions behind others are groupings of their parts. -/
theorem regrouped_partsAll (c : Connective) (before : List Proposition) :
    (ps : List Proposition) → Regrouped (c.join (before ++ partsAll c ps)) (c.join (before ++ ps))
  | [] => .refl _
  | p :: ps => by
    -- The parts of the first proposition are put in brackets, and these are that proposition.
    have hbrackets : Regrouped (c.join (before ++ partsAll c (p :: ps)))
        (c.join (before ++ c.join (p.parts c) :: partsAll c ps)) := by
      apply Relation.EqvGen.symm
      rw [partsAll, ← List.append_assoc]
      exact .rel _ _ (.flatten c before (p.parts c) (partsAll c ps))
    have hfirst : Regrouped (c.join (before ++ c.join (p.parts c) :: partsAll c ps))
        (c.join (before ++ p :: partsAll c ps)) := (regrouped_parts c p).within c before _
    have hothers := regrouped_partsAll c (before ++ [p]) ps
    simp only [List.append_assoc, List.singleton_append] at hothers
    exact .trans _ _ _ hbrackets (.trans _ _ _ hfirst hothers)

end

/-- Groupings of the same parts, in whatever order, are regroupings of each other. -/
theorem regrouped_of_parts_perm (c : Connective) {p q : Proposition}
    (h : (p.parts c).Perm (q.parts c)) : Regrouped p q := by
  have horder : Regrouped (c.join (p.parts c)) (c.join (q.parts c)) := .rel _ _ (.permute c h)
  exact .trans _ _ _ (.symm _ _ (regrouped_parts c p)) (.trans _ _ _ horder (regrouped_parts c q))

/-- Three propositions that are joined two by two are regrouped by joining them at once. -/
example (p q s : Proposition) : Regrouped (p &&& q &&& s) (and [p, q, s]) :=
  .rel _ _ (.flatten .and [] [p, q] [s])

/-! ### Degrees -/

/-- The valuations in a list of trees are those of each of them. -/
theorem valuationsAll_eq_flatMap (ps : List Proposition) :
    valuationsAll ps = ps.flatMap valuations := by
  induction ps with
  | nil => rfl
  | cons p ps ih => rw [valuationsAll, ih, List.flatMap_cons]

/-- The valuations of a combination are those of its parts. -/
theorem valuations_join (c : Connective) (ps : List Proposition) :
    (c.join ps).valuations = ps.flatMap valuations := by
  cases c <;> exact valuationsAll_eq_flatMap ps

/-- A change of brackets or of the order changes at most the order of the valuations. -/
theorem Regrouping.valuations_perm {p q : Proposition} (h : Regrouping p q) :
    p.valuations.Perm q.valuations := by
  induction h with
  | drop c p => rw [valuations_join, List.flatMap_singleton]
  | flatten c before inner after =>
    simp only [valuations_join, List.flatMap_append, List.flatMap_cons, List.append_assoc]
    exact .refl _
  | permute c h =>
    rw [valuations_join, valuations_join]
    exact h.flatMap_right _
  | not _ ih => exact ih
  | within c before after _ ih =>
    simp only [valuations_join, List.flatMap_append, List.flatMap_cons]
    exact (ih.append_right _).append_left _

section Degrees

variable {r : Registry Exact} {inputs : Assignment Exact} {ctx : Context} {d : Exact}
  {P : Exact → Prop} {read other : List (Handle × String)}

/-- The order of valuations does not matter to what their degrees have. -/
theorem ValuationsHave.of_perm (h : ValuationsHave P r inputs ctx read) (hp : read.Perm other) :
    ValuationsHave P r inputs ctx other :=
  fun a ha ↦ h a (hp.mem_iff.mpr ha)

/-- What the valuations of a combination have, those of its parts have. -/
theorem ValuationsHave.of_join {c : Connective} {ps : List Proposition} {p : Proposition}
    (h : ValuationsHave P r inputs ctx (c.join ps).valuations) (hp : p ∈ ps) :
    ValuationsHave P r inputs ctx p.valuations := by
  rw [valuations_join] at h
  exact fun a ha ↦ h a (List.mem_flatMap.mpr ⟨p, hp, ha⟩)

/-- The degrees of several propositions are those of each of them. -/
theorem degrees_eq_mapM (ps : List Proposition) :
    degrees r inputs ctx ps = ps.mapM (degree r inputs ctx) := by
  induction ps with
  | nil => rfl
  | cons p ps ih => rw [degrees, ih, List.mapM_cons]

/-- A combination has the degree that its parts combine to. -/
theorem degree_join_eq_ok_iff (c : Connective) (ps : List Proposition) :
    (c.join ps).degree r inputs ctx = .ok d ↔
      Combines (c.operator ctx).combine (fun p d ↦ p.degree r inputs ctx = .ok d) ps d := by
  have hdegree : (c.join ps).degree r inputs ctx =
      degrees r inputs ctx ps >>= fun ds ↦ .ok ((c.operator ctx).combine ds) := by
    cases c <;> rfl
  simp only [hdegree, bind_eq_ok_iff, degrees_eq_mapM, mapM_eq_ok_iff, Except.ok.injEq, Combines,
    eq_comm (b := d)]

/-- A change of brackets or of the order keeps the degree. -/
theorem Regrouping.degree_eq_ok_iff {p q : Proposition} (h : Regrouping p q)
    (hv : ValuationsHave IsDegree r inputs ctx p.valuations) :
    p.degree r inputs ctx = .ok d ↔ q.degree r inputs ctx = .ok d := by
  have hkept {p : Proposition} (hv : ValuationsHave IsDegree r inputs ctx p.valuations) (e : Exact)
      (he : p.degree r inputs ctx = .ok e) : IsDegree e :=
    degree_kept_of_valuations Exact.kept_isDegree hv he
  induction h generalizing d with
  | drop c p =>
    rw [valuations_join, List.flatMap_singleton] at hv
    rw [degree_join_eq_ok_iff]
    exact (c.operator ctx).groupsFreely.combines_single (hkept hv)
  | flatten c before inner after =>
    rw [degree_join_eq_ok_iff, degree_join_eq_ok_iff]
    apply (c.operator ctx).groupsFreely.combines_flatten
    · exact fun e ↦ degree_join_eq_ok_iff c inner
    · intro p hp
      have hflat := hv.of_perm (Regrouping.flatten c before inner after).valuations_perm
      exact hkept (hflat.of_join hp)
  | permute c h =>
    rw [degree_join_eq_ok_iff, degree_join_eq_ok_iff]
    exact (c.operator ctx).groupsFreely.combines_of_perm h
  | not _ ih =>
    simp only [degree, bind_eq_ok_iff]
    exact exists_congr fun e ↦ and_congr_left' (ih hv)
  | within c before after _ ih =>
    rw [degree_join_eq_ok_iff, degree_join_eq_ok_iff]
    apply Combines.replace
    intro e
    exact ih (hv.of_join (List.mem_append_right _ List.mem_cons_self))

/-- Any number of changes keep the valuations up to their order, and the degree. -/
theorem Regrouped.degree_eq_ok_iff {p q : Proposition} (h : Regrouped p q) :
    p.valuations.Perm q.valuations ∧
      (ValuationsHave IsDegree r inputs ctx p.valuations →
        ∀ d, p.degree r inputs ctx = .ok d ↔ q.degree r inputs ctx = .ok d) := by
  induction h with
  | rel p q h => exact ⟨h.valuations_perm, fun hv d ↦ h.degree_eq_ok_iff hv⟩
  | refl p => exact ⟨.refl _, fun _ _ ↦ Iff.rfl⟩
  | symm p q _ ih => exact ⟨ih.1.symm, fun hv d ↦ (ih.2 (hv.of_perm ih.1.symm) d).symm⟩
  | trans p q s _ _ ihp ihq =>
    exact ⟨ihp.1.trans ihq.1, fun hv d ↦ (ihp.2 hv d).trans (ihq.2 (hv.of_perm ihp.1) d)⟩

end Degrees

/-! ### Main results -/

/-- Brackets around parts of one connective and the order of the parts do not matter. Propositions
that differ in them only hold to the same degree under every context, if their valuations have
degrees in the unit interval; groupings of the same parts, in whatever order, are propositions that
differ in them only. Sets that differ in them only give the same degrees, where brackets around
operands of one operator are meant. -/
theorem grouping_keeps_degrees :
    (∀ p q : Proposition, Regrouped p q →
      ∀ (r : Registry Exact) (inputs : Assignment Exact) (ctx : Context),
        ValuationsHave IsDegree r inputs ctx p.valuations →
          ∀ d, p.degree r inputs ctx = .ok d ↔ q.degree r inputs ctx = .ok d) ∧
    (∀ (c : Connective) (p q : Proposition), (p.parts c).Perm (q.parts c) → Regrouped p q) ∧
    ∀ (ctx : Context) (s t : FuzzySet Exact), FuzzySet.Regrouped ctx s t →
      ∀ x : Point Exact, s.GivesDegrees ctx x → t.degree ctx x = s.degree ctx x := by
  refine ⟨?_, ?_, ?_⟩
  · intro p q h r inputs ctx hv
    exact h.degree_eq_ok_iff.2 hv
  · intro c p q h
    exact regrouped_of_parts_perm c h
  · intro ctx s t h x hs
    exact h.alike.degree_eq hs

/-- A view on how likely something is, whatever the point. -/
noncomputable def view (degree : ℝ) : FuzzySet Exact := .constant (.number degree)

/-- Three views, of which two are put together first. -/
noncomputable def groupedViews : FuzzySet Exact :=
  .or none [.or (some .boundedSum) [view 0.5, view 0.75], view 0.25]

/-- The three views side by side, in another order. -/
noncomputable def views : FuzzySet Exact := .or none [view 0.25, view 0.5, view 0.75]

private theorem groupedViews_givesDegrees (ctx : Context) (x : Point Exact) :
    groupedViews.GivesDegrees ctx x := by
  have hview {v : ℝ} (hv : 0 ≤ v ∧ v ≤ 1) : (view v).GivesDegrees ctx x :=
    List.forall_mem_singleton.mpr (Exact.isDegree_number.mpr hv)
  have hpair : ((FuzzySet.Connective.or (some .boundedSum)).join
      [view 0.5, view 0.75]).GivesDegrees ctx x :=
    FuzzySet.givesDegrees_join_iff.mpr (List.forall_mem_cons.mpr
      ⟨hview (by norm_num), List.forall_mem_singleton.mpr (hview (by norm_num))⟩)
  show ((FuzzySet.Connective.or none).join _).GivesDegrees ctx x
  exact FuzzySet.givesDegrees_join_iff.mpr (List.forall_mem_cons.mpr
    ⟨hpair, List.forall_mem_singleton.mpr (hview (by norm_num))⟩)

private theorem groupedViews_regrouped :
    FuzzySet.Regrouped { disjunction := .boundedSum } groupedViews views := by
  have hflat : FuzzySet.Regrouping { disjunction := .boundedSum } groupedViews
      (.or none [view 0.5, view 0.75, view 0.25]) :=
    @FuzzySet.Regrouping.flatten _ _ (.or none) (.or (some .boundedSum)) rfl []
      [view 0.5, view 0.75] [view 0.25]
  have horder : [view 0.5, view 0.75, view 0.25].Perm [view 0.25, view 0.5, view 0.75] :=
    List.perm_append_singleton (view 0.25) [view 0.5, view 0.75]
  exact .trans _ _ _ (.rel _ _ hflat) (.rel _ _ (.permute (.or none) horder))

/-- Dry soil that is no dry soil, and the views, each grouped in two ways. -/
theorem irrigation_grouping_keeps_degrees :
    (∃ d, (and [and [is ⟨0⟩ "dry", is ⟨0⟩ "dry"], isNot ⟨0⟩ "dry"]).degree
          FuzzySystem.irrigation.registry (FuzzySystem.moist 40)
          { conjunction := .lukasiewicz } = .ok d ∧
        (and [isNot ⟨0⟩ "dry", is ⟨0⟩ "dry", is ⟨0⟩ "dry"]).degree
          FuzzySystem.irrigation.registry (FuzzySystem.moist 40)
          { conjunction := .lukasiewicz } = .ok d) ∧
      views.degree { disjunction := .boundedSum } (.number (.number 0)) =
        groupedViews.degree { disjunction := .boundedSum } (.number (.number 0)) := by
  obtain ⟨hdegree, hparts, hsets⟩ := grouping_keeps_degrees
  constructor
  · have hregrouped := hparts .and (and [and [is ⟨0⟩ "dry", is ⟨0⟩ "dry"], isNot ⟨0⟩ "dry"])
      (and [isNot ⟨0⟩ "dry", is ⟨0⟩ "dry", is ⟨0⟩ "dry"])
      (List.perm_append_singleton (isNot ⟨0⟩ "dry") [is ⟨0⟩ "dry", is ⟨0⟩ "dry"])
    refine ⟨_, rfl, (hdegree _ _ hregrouped _ _ _ ?_ _).mp rfl⟩
    intro a _ d hd
    have hwell := FuzzySystem.obtained_irrigation.wellFormed
    exact valuation_kept (hwell.gives_isDegree_of_get FuzzySystem.irrigation_graded
      (FuzzySystem.isFinite_moist 40)) hd
  · exact hsets _ _ _ groupedViews_regrouped _ (groupedViews_givesDegrees _ _)

end Proposition

end FuzzyInference
