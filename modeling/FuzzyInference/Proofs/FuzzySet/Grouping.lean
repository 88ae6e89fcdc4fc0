import FuzzyInference.Proofs.FuzzySet.Degree
import FuzzyInference.Proofs.Operator.Grouping
import Mathlib.Logic.Relation

/-!
# Grouping sets

Unions and intersections of sets may be regrouped where they come to the same operator: by naming it
both, or by leaving it to the context. Without rounding, such changes leave the degree of a point as
it is, if all sets in the tree give the point a degree in the unit interval.
-/

namespace FuzzyInference.FuzzySet

open Scalar

/-- The combinations of several sets: an intersection or a union, with the operator that it names,
if any. -/
inductive Connective where
  /-- An intersection. -/
  | and (op? : Option Conjunction)
  /-- A union. -/
  | or (op? : Option Disjunction)

/-- Several sets under a connective. -/
def Connective.join {α : Type} : Connective → List (FuzzySet α) → FuzzySet α
  | and op? => FuzzySet.and op?
  | or op? => FuzzySet.or op?

/-- The operator that a connective comes to under a context. -/
def Connective.operator (ctx : Context) : Connective → Combination
  | and op? => .all (op?.getD ctx.conjunction)
  | or op? => .any (op?.getD ctx.disjunction)

/-- A change of brackets or of the order, at one place of a tree. Brackets may be dissolved where
the operators are the same under the context. -/
inductive Regrouping {α : Type} (ctx : Context) : FuzzySet α → FuzzySet α → Prop
  /-- A combination of one set is that set. -/
  | drop (c : Connective) (s : FuzzySet α) : Regrouping ctx (c.join [s]) s
  /-- A combination among the operands of one by the same operator is dissolved. -/
  | flatten {c c' : Connective} (h : c'.operator ctx = c.operator ctx)
    (before inner after : List (FuzzySet α)) :
    Regrouping ctx (c.join (before ++ c'.join inner :: after)) (c.join (before ++ inner ++ after))
  /-- The operands of a combination are put in another order. -/
  | permute (c : Connective) {ss ts : List (FuzzySet α)} :
    ss.Perm ts → Regrouping ctx (c.join ss) (c.join ts)
  /-- The change is made in a complement. -/
  | not {s t : FuzzySet α} : Regrouping ctx s t → Regrouping ctx (not s) (not t)
  /-- The change is made in a scaled set. -/
  | scale {s t : FuzzySet α} (factor : α) :
    Regrouping ctx s t → Regrouping ctx (scale s factor) (scale t factor)
  /-- The change is made in a set that is concluded. -/
  | implication (op : Implication) (truth : α) {s t : FuzzySet α} :
    Regrouping ctx s t → Regrouping ctx (implication op truth s) (implication op truth t)
  /-- The change is made in an operand of a combination. -/
  | within (c : Connective) (before after : List (FuzzySet α)) {s t : FuzzySet α} :
    Regrouping ctx s t →
      Regrouping ctx (c.join (before ++ s :: after)) (c.join (before ++ t :: after))

/-- Any number of such changes and of their reversals. -/
def Regrouped {α : Type} (ctx : Context) : FuzzySet α → FuzzySet α → Prop :=
  Relation.EqvGen (Regrouping ctx)

/-- All sets in a tree give a point a degree in the unit interval. -/
def GivesDegrees {α : Type} [Scalar α] (ctx : Context) (x : Point α) (s : FuzzySet α) : Prop :=
  ∀ t ∈ s.nodes, IsDegree (t.degree ctx x)

variable {ctx : Context} {x : Point Exact} {s t u : FuzzySet Exact} {d : Exact}

/-! ### Combinations -/

/-- The sets in a combination are the combination and those in its operands. -/
theorem nodes_join (c : Connective) (ss : List (FuzzySet Exact)) :
    (c.join ss).nodes = c.join ss :: nodesAll ss := by
  cases c <;> rfl

/-- A set is one of those in its tree. -/
theorem mem_nodes_self (s : FuzzySet Exact) : s ∈ s.nodes := by
  cases s <;> exact List.mem_cons_self

/-- A combination gives the degree that its operands combine to. -/
theorem degree_join (c : Connective) (ss : List (FuzzySet Exact)) :
    (c.join ss).degree ctx x = (c.operator ctx).combine (ss.map (degree ctx x)) := by
  rw [← degrees_eq_map]
  cases c <;> rfl

/-- The sets in a combination give degrees if those in the operands do. -/
theorem givesDegrees_join_iff {c : Connective} {ss : List (FuzzySet Exact)} :
    (c.join ss).GivesDegrees ctx x ↔ ∀ s ∈ ss, s.GivesDegrees ctx x := by
  rw [GivesDegrees, nodes_join, List.forall_mem_cons]
  constructor
  · rintro ⟨-, h⟩ s hs t ht
    exact h t (mem_nodesAll_iff.mpr ⟨s, hs, ht⟩)
  · intro h
    refine ⟨?_, fun t ht ↦ ?_⟩
    · rw [degree_join]
      exact (c.operator ctx).groupsFreely.isDegree
        (List.forall_mem_map.mpr fun s hs ↦ h s hs s (mem_nodes_self s))
    · obtain ⟨s, hs, hts⟩ := mem_nodesAll_iff.mp ht
      exact h s hs t hts

/-! ### Changes -/

/-- Two sets give a point degrees together, and then the same. -/
structure Alike (ctx : Context) (x : Point Exact) (s t : FuzzySet Exact) : Prop where
  /-- All sets in both trees give degrees, or some in both do not. -/
  gives_iff : s.GivesDegrees ctx x ↔ t.GivesDegrees ctx x
  /-- The degrees are the same. -/
  degree_eq : s.GivesDegrees ctx x → t.degree ctx x = s.degree ctx x

namespace Alike

/-- A set is like itself. -/
theorem refl (s : FuzzySet Exact) : Alike ctx x s s := ⟨Iff.rfl, fun _ ↦ rfl⟩

/-- Sets are like each other. -/
theorem symm (h : Alike ctx x s t) : Alike ctx x t s :=
  ⟨h.gives_iff.symm, fun ht ↦ (h.degree_eq (h.gives_iff.mpr ht)).symm⟩

/-- What is like a set is like everything that this is like. -/
theorem trans (hs : Alike ctx x s t) (ht : Alike ctx x t u) : Alike ctx x s u :=
  ⟨hs.gives_iff.trans ht.gives_iff,
    fun h ↦ (ht.degree_eq (hs.gives_iff.mp h)).trans (hs.degree_eq h)⟩

/-- What is made of one set in the same way is alike if the sets are. -/
theorem unary (wrap : FuzzySet Exact → FuzzySet Exact) (f : Exact → Exact)
    (hnodes : ∀ s, (wrap s).nodes = wrap s :: s.nodes)
    (hdegree : ∀ s, (wrap s).degree ctx x = f (s.degree ctx x)) (h : Alike ctx x s t) :
    Alike ctx x (wrap s) (wrap t) := by
  have hgives (s : FuzzySet Exact) : (wrap s).GivesDegrees ctx x ↔
      s.GivesDegrees ctx x ∧ IsDegree (f (s.degree ctx x)) := by
    rw [GivesDegrees, hnodes, List.forall_mem_cons, hdegree, and_comm]
    rfl
  constructor
  · rw [hgives, hgives, ← h.gives_iff]
    exact and_congr_right fun hs ↦ by rw [h.degree_eq hs]
  · intro hs
    rw [hdegree, hdegree, h.degree_eq ((hgives s).mp hs).1]

/-- Combinations are alike in which one operand is like the other. -/
theorem within (c : Connective) (before after : List (FuzzySet Exact)) (h : Alike ctx x s t) :
    Alike ctx x (c.join (before ++ s :: after)) (c.join (before ++ t :: after)) := by
  constructor
  · simp only [givesDegrees_join_iff, List.forall_mem_append, List.forall_mem_cons, h.gives_iff]
  · intro hs
    have hs : s.GivesDegrees ctx x :=
      givesDegrees_join_iff.mp hs s (List.mem_append_right _ List.mem_cons_self)
    simp only [degree_join, List.map_append, List.map_cons, h.degree_eq hs]

end Alike

/-- A change of brackets or of the order leads to a set that is alike. -/
theorem Regrouping.alike (h : Regrouping ctx s t) : Alike ctx x s t := by
  induction h with
  | drop c s =>
    have hgives : (c.join [s]).GivesDegrees ctx x ↔ s.GivesDegrees ctx x := by
      rw [givesDegrees_join_iff, List.forall_mem_singleton]
    refine ⟨hgives, fun hs ↦ ?_⟩
    rw [degree_join, List.map_singleton]
    exact ((c.operator ctx).groupsFreely.single (hgives.mp hs s (mem_nodes_self s))).symm
  | @flatten c c' hop before inner after =>
    have hgives : (c.join (before ++ c'.join inner :: after)).GivesDegrees ctx x ↔
        (c.join (before ++ inner ++ after)).GivesDegrees ctx x := by
      simp only [givesDegrees_join_iff, List.forall_mem_append, List.forall_mem_cons, and_assoc]
    refine ⟨hgives, fun hs ↦ ?_⟩
    have hdegrees : ∀ d ∈ before.map (degree ctx x) ++ inner.map (degree ctx x) ++
        after.map (degree ctx x), IsDegree d := by
      rw [← List.map_append, ← List.map_append, List.forall_mem_map]
      exact fun s hs' ↦ givesDegrees_join_iff.mp (hgives.mp hs) s hs' s (mem_nodes_self s)
    rw [degree_join, degree_join, List.map_append, List.map_append, List.map_append, List.map_cons,
      degree_join, hop]
    exact ((c.operator ctx).groupsFreely.flatten_at hdegrees).symm
  | permute c h =>
    refine ⟨?_, fun _ ↦ ?_⟩
    · simp only [givesDegrees_join_iff, h.mem_iff]
    · rw [degree_join, degree_join]
      exact (c.operator ctx).groupsFreely.perm (h.symm.map _)
  | not _ ih => exact ih.unary .not (1 - ·) (fun _ ↦ rfl) (fun _ ↦ rfl)
  | scale factor _ ih =>
    exact ih.unary (.scale · factor) (factor * ·) (fun _ ↦ rfl) (fun _ ↦ rfl)
  | implication op truth _ ih =>
    exact ih.unary (.implication op truth) (op.apply truth) (fun _ ↦ rfl) (fun _ ↦ rfl)
  | within c before after _ ih => exact ih.within c before after

/-- So does any number of changes. -/
theorem Regrouped.alike (h : Regrouped ctx s t) : Alike ctx x s t := by
  induction h with
  | rel s t h => exact h.alike
  | refl s => exact .refl s
  | symm s t _ ih => exact ih.symm
  | trans s t u _ _ ihs iht => exact ihs.trans iht

end FuzzyInference.FuzzySet
