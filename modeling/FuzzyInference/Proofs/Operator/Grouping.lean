import FuzzyInference.Proofs.Fault.Result
import FuzzyInference.Proofs.Operator.Combine
import FuzzyInference.Proofs.Operator.Duality

/-!
# Grouping operands

An operator on degrees takes its operands in any order, one operand stands for itself, and operands
that are combined by the same operator first may as well stand side by side. The clamped operators
need degrees in the unit interval for it. What holds of the operators holds of everything that is
evaluated by them, trees of propositions and trees of sets alike.
-/

namespace FuzzyInference

open Scalar

/-- An operator on several degrees. -/
inductive Combination where
  /-- All conditions hold. -/
  | all (op : Conjunction)
  /-- One of the alternatives holds. -/
  | any (op : Disjunction)

/-- The combination of several degrees. -/
def Combination.combine {α : Type} [Scalar α] : Combination → List α → α
  | all op => op.combine
  | any op => op.combine

/-! ### Operators -/

/-- The order and the grouping of degrees do not matter to an operator. -/
structure GroupsFreely (F : List Exact → Exact) : Prop where
  /-- One degree stands for itself. -/
  single {d : Exact} : IsDegree d → F [d] = d
  /-- What was combined before may stand side by side with the others. -/
  flatten {inner rest : List Exact} : (∀ d ∈ inner, IsDegree d) → (∀ d ∈ rest, IsDegree d) →
    F (F inner :: rest) = F (inner ++ rest)
  /-- The operands may be in any order. -/
  perm {ds es : List Exact} : ds.Perm es → F ds = F es
  /-- The result is a degree. -/
  isDegree {ds : List Exact} : (∀ d ∈ ds, IsDegree d) → IsDegree (F ds)

namespace Conjunction

/-- Degrees are conjoined in any order. -/
theorem combine_eq_of_perm (op : Conjunction) {ds es : List Exact} (h : ds.Perm es) :
    op.combine ds = op.combine es := by
  rw [← Exact.one_sub_injective, ← Exact.one_eq, op.one_sub_combine, op.one_sub_combine]
  exact op.dual.combine_eq_of_perm (h.map _)

private theorem value_single (op : Conjunction) {d : ℝ} (hd : 0 ≤ d) : op.value [d] = d := by
  cases op with
  | minimum => simp [value]
  | product => simp [value]
  | lukasiewicz => simp [value, hd]

private theorem minimum_flatten {inner rest : List ℝ} (hrest : ∀ d ∈ rest, d ≤ 1) :
    minimum.value (minimum.value inner :: rest) = minimum.value (inner ++ rest) := by
  cases inner with
  | cons i inner =>
    simp only [value, List.cons_append, List.min?_cons', List.foldl_append, Option.getD_some]
  | nil =>
    cases rest with
    | nil => simp [value]
    | cons d rest =>
      have hd : min 1 d = d := min_eq_right (hrest d List.mem_cons_self)
      simp only [value, List.nil_append, List.min?_nil, List.min?_cons', List.foldl_cons,
        Option.getD_none, Option.getD_some, hd]

private theorem value_flatten (op : Conjunction) {inner rest : List ℝ}
    (hrest : ∀ d ∈ rest, 0 ≤ d ∧ d ≤ 1) :
    op.value (op.value inner :: rest) = op.value (inner ++ rest) := by
  cases op with
  | minimum => exact minimum_flatten fun d hd ↦ (hrest d hd).2
  | product => simp only [value, List.prod_cons, List.prod_append]
  | lukasiewicz =>
    -- The others take away from the sum, so that it does not recover once it is cut off at zero.
    have hsum : rest.sum ≤ rest.length := by
      simpa using List.sum_le_card_nsmul rest 1 fun d hd ↦ (hrest d hd).2
    simp only [value, List.sum_cons, List.sum_append, List.length_cons, List.length_append,
      Nat.cast_add, Nat.cast_one]
    rcases le_total (inner.sum - (inner.length - 1)) 0 with h | h
    · rw [max_eq_left h, max_eq_left (by linarith), max_eq_left (by linarith)]
    · rw [max_eq_right h]
      congr 1
      ring

/-- Conjunctions group their degrees freely. -/
theorem groupsFreely (op : Conjunction) : GroupsFreely op.combine where
  single hd := by
    obtain ⟨x, hx, rfl⟩ := Exact.isDegree_iff.mp hd
    have hsingle := op.combine_map_number [x]
    rwa [op.value_single hx.1] at hsingle
  flatten {inner rest} hinner hrest := by
    obtain ⟨xs, -, rfl⟩ := Exact.exists_map_number fun d hd ↦ Exact.isDegree_iff.mp (hinner d hd)
    obtain ⟨ys, hys, rfl⟩ := Exact.exists_map_number fun d hd ↦ Exact.isDegree_iff.mp (hrest d hd)
    rw [op.combine_map_number, ← List.map_cons, ← List.map_append, op.combine_map_number,
      op.combine_map_number, op.value_flatten hys]
  perm h := op.combine_eq_of_perm h
  isDegree h := Exact.kept_isDegree.conjunction op h

end Conjunction

/-- Complements of degrees are degrees. -/
theorem Exact.isDegree_map_one_sub {ds : List Exact} (h : ∀ d ∈ ds, IsDegree d) :
    ∀ d ∈ ds.map (1 - ·), IsDegree d :=
  List.forall_mem_map.mpr fun d hd ↦ kept_isDegree.complement (h d hd)

/-- What groups freely does so between complements. -/
theorem GroupsFreely.dual {F : List Exact → Exact} (hF : GroupsFreely F) :
    GroupsFreely fun ds ↦ 1 - F (ds.map (1 - ·)) := by
  constructor
  · intro d hd
    rw [List.map_singleton, hF.single (Exact.kept_isDegree.complement hd),
      Exact.one_sub_one_sub_self]
  · intro inner rest hinner hrest
    rw [List.map_cons, Exact.one_sub_one_sub_self, hF.flatten
      (Exact.isDegree_map_one_sub hinner) (Exact.isDegree_map_one_sub hrest), List.map_append]
  · intro ds es h
    rw [hF.perm (h.map _)]
  · intro ds h
    exact Exact.kept_isDegree.complement (hF.isDegree (Exact.isDegree_map_one_sub h))

/-- What was combined before may stand side by side with the others at any place. -/
theorem GroupsFreely.flatten_at {F : List Exact → Exact} (hF : GroupsFreely F)
    {before inner after : List Exact} (hdegrees : ∀ d ∈ before ++ inner ++ after, IsDegree d) :
    F (before ++ F inner :: after) = F (before ++ inner ++ after) := by
  simp only [List.forall_mem_append] at hdegrees
  obtain ⟨⟨hbefore, hinner⟩, hafter⟩ := hdegrees
  calc F (before ++ F inner :: after)
      = F (F inner :: (before ++ after)) := hF.perm List.perm_middle
    _ = F (inner ++ (before ++ after)) :=
      hF.flatten hinner (List.forall_mem_append.mpr ⟨hbefore, hafter⟩)
    _ = F (before ++ inner ++ after) := by
      rw [← List.append_assoc]
      exact hF.perm (List.perm_append_comm.append_right after)

/-- Every disjunction is the dual of a conjunction. -/
theorem Disjunction.exists_dual (op : Disjunction) : ∃ c : Conjunction, c.dual = op := by
  cases op with
  | maximum => exact ⟨.minimum, rfl⟩
  | probabilisticSum => exact ⟨.product, rfl⟩
  | boundedSum => exact ⟨.lukasiewicz, rfl⟩

/-- Disjunctions group their degrees freely. -/
theorem Disjunction.groupsFreely (op : Disjunction) : GroupsFreely op.combine := by
  obtain ⟨c, rfl⟩ := op.exists_dual
  rw [c.combine_dual]
  exact c.groupsFreely.dual

/-- All operators group their degrees freely. -/
theorem Combination.groupsFreely : (op : Combination) → GroupsFreely op.combine
  | all op => op.groupsFreely
  | any op => op.groupsFreely

/-! ### Operands

Operands are conditions of any kind, of which a relation says which degrees they have. -/

section Operands

variable {β : Type} {D : β → Exact → Prop} {F : List Exact → Exact} {d : Exact}

/-- A combination of operands has a degree: the operands have degrees that combine to it. -/
def Combines (F : List Exact → Exact) (D : β → Exact → Prop) (bs : List β) (d : Exact) : Prop :=
  ∃ ds, List.Forall₂ D bs ds ∧ d = F ds

/-- The degrees of two lists of operands stand side by side. -/
theorem forall₂_append_iff {bs cs : List β} {ds : List Exact} :
    List.Forall₂ D (bs ++ cs) ds ↔
      ∃ es fs, List.Forall₂ D bs es ∧ List.Forall₂ D cs fs ∧ ds = es ++ fs := by
  constructor
  · intro h
    refine ⟨ds.take bs.length, ds.drop bs.length, ?_, ?_, (List.take_append_drop _ _).symm⟩
    · exact (List.forall₂_take_append ds bs cs h.flip).flip
    · exact (List.forall₂_drop_append ds bs cs h.flip).flip
  · rintro ⟨es, fs, hes, hfs, rfl⟩
    exact List.rel_append hes hfs

/-- What the operands have, the degrees have. -/
theorem forall_mem_of_forall₂ {P : Exact → Prop} {bs : List β} {ds : List Exact}
    (h : List.Forall₂ D bs ds) (hP : ∀ b ∈ bs, ∀ d, D b d → P d) : ∀ d ∈ ds, P d := by
  intro d hd
  obtain ⟨b, hb, hbd⟩ := Result.exists_left_of_mem h hd
  exact hP b hb d hbd

/-- One operand stands for itself. -/
theorem GroupsFreely.combines_single (hF : GroupsFreely F) {b : β}
    (hb : ∀ e, D b e → IsDegree e) : Combines F D [b] d ↔ D b d := by
  constructor
  · rintro ⟨ds, hds, rfl⟩
    obtain ⟨e, es, he, hes, rfl⟩ := List.forall₂_cons_left_iff.mp hds
    rw [List.forall₂_nil_left_iff.mp hes, hF.single (hb e he)]
    exact he
  · intro hd
    exact ⟨[d], .cons hd .nil, (hF.single (hb d hd)).symm⟩

/-- Operands may be in any order. -/
theorem GroupsFreely.combines_of_perm (hF : GroupsFreely F) {bs cs : List β} (h : bs.Perm cs) :
    Combines F D bs d ↔ Combines F D cs d := by
  have hmp {bs cs : List β} (h : bs.Perm cs) : Combines F D bs d → Combines F D cs d := by
    rintro ⟨ds, hds, rfl⟩
    obtain ⟨es, hes, hperm⟩ := List.perm_comp_forall₂ h.symm hds
    exact ⟨es, hes, (hF.perm hperm).symm⟩
  exact ⟨hmp h, hmp h.symm⟩

/-- An operand that combines others by the same operator may be replaced by these. -/
theorem GroupsFreely.combines_flatten (hF : GroupsFreely F) {b : β} {before inner after : List β}
    (hb : ∀ e, D b e ↔ Combines F D inner e)
    (hdegrees : ∀ c ∈ before ++ inner ++ after, ∀ e, D c e → IsDegree e) :
    Combines F D (before ++ b :: after) d ↔ Combines F D (before ++ inner ++ after) d := by
  constructor
  · rintro ⟨ds, hds, rfl⟩
    obtain ⟨es, _, hes, hrest, rfl⟩ := forall₂_append_iff.mp hds
    obtain ⟨e, fs, he, hfs, rfl⟩ := List.forall₂_cons_left_iff.mp hrest
    obtain ⟨is, his, rfl⟩ := (hb e).mp he
    have hall := List.rel_append (List.rel_append hes his) hfs
    exact ⟨es ++ is ++ fs, hall, hF.flatten_at (forall_mem_of_forall₂ hall hdegrees)⟩
  · rintro ⟨ds, hall, rfl⟩
    obtain ⟨ds, fs, hds, hfs, rfl⟩ := forall₂_append_iff.mp hall
    obtain ⟨es, is, hes, his, rfl⟩ := forall₂_append_iff.mp hds
    exact ⟨es ++ F is :: fs, List.rel_append hes (.cons ((hb _).mpr ⟨is, his, rfl⟩) hfs),
      (hF.flatten_at (forall_mem_of_forall₂ hall hdegrees)).symm⟩

/-- Operands of the same degrees may replace each other. -/
theorem Combines.replace {b c : β} (h : ∀ e, D b e ↔ D c e) {before after : List β} :
    Combines F D (before ++ b :: after) d ↔ Combines F D (before ++ c :: after) d := by
  simp only [Combines, forall₂_append_iff, List.forall₂_cons_left_iff, h]

end Operands

end FuzzyInference
