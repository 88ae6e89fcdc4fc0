import FuzzyInference.Proofs.Operator.Grouping

/-!
# The order of operators

Greater degrees come to no smaller one under any operator, and of the same degrees the operators
make more and more: the Łukasiewicz conjunction the least, then the product and the minimum, the
maximum, the probabilistic sum and the bounded sum. The disjunctions are compared by their dual
conjunctions, as complements are in the opposite order.
-/

namespace FuzzyInference

open Scalar

/-! ### Real degrees -/

section Reals

variable {ds es : List ℝ}

private theorem prod_mono (h : List.Forall₂ (· ≤ ·) ds es) (hds : ∀ d ∈ ds, 0 ≤ d) :
    0 ≤ ds.prod ∧ ds.prod ≤ es.prod := by
  induction h with
  | nil => simp
  | cons hde _ ih =>
    rw [List.forall_mem_cons] at hds
    obtain ⟨hp0, hp⟩ := ih hds.2
    rw [List.prod_cons, List.prod_cons]
    exact ⟨mul_nonneg hds.1 hp0, mul_le_mul hde hp hp0 (hds.1.trans hde)⟩

private theorem minimum_value_le {d : ℝ} (hd : d ∈ ds) : Conjunction.minimum.value ds ≤ d := by
  obtain ⟨m, hm⟩ := Option.isSome_iff_exists.mp (List.isSome_min?_of_mem hd)
  rw [Conjunction.value, hm, Option.getD_some]
  exact (List.min?_eq_some_iff.mp hm).2 d hd

private theorem le_maximum_value {d : ℝ} (hd : d ∈ ds) : d ≤ Disjunction.maximum.value ds := by
  obtain ⟨m, hm⟩ := Option.isSome_iff_exists.mp (List.isSome_max?_of_mem hd)
  rw [Disjunction.value, hm, Option.getD_some]
  exact (List.max?_eq_some_iff.mp hm).2 d hd

private theorem le_minimum_value {c : ℝ} (hc : c ≤ 1) (h : ∀ d ∈ ds, c ≤ d) :
    c ≤ Conjunction.minimum.value ds := by
  rw [Conjunction.value]
  cases hm : ds.min? with
  | none => exact hc
  | some m => exact h m (List.min?_mem hm)

private theorem Conjunction.value_mono (op : Conjunction) (h : List.Forall₂ (· ≤ ·) ds es)
    (hds : ∀ d ∈ ds, 0 ≤ d ∧ d ≤ 1) : op.value ds ≤ op.value es := by
  cases op with
  | minimum =>
    refine le_minimum_value (minimum.value_mem hds).2 fun e he ↦ ?_
    obtain ⟨d, hd, hde⟩ := Result.exists_left_of_mem h he
    exact (minimum_value_le hd).trans hde
  | product => exact (prod_mono h fun d hd ↦ (hds d hd).1).2
  | lukasiewicz =>
    rw [value, value, h.length_eq]
    exact max_le_max_left 0 (sub_le_sub_right h.sum_le_sum _)

private theorem Implication.value_mono (op : Implication) {d e m n : ℝ} (hm : 0 ≤ m) (he : 0 ≤ e)
    (hde : d ≤ e) (hmn : m ≤ n) : op.value d m ≤ op.value e n := by
  cases op with
  | minimum => exact min_le_min hde hmn
  | product => exact mul_le_mul hde hmn hm he

variable (h : ∀ d ∈ ds, 0 ≤ d ∧ d ≤ 1)

include h

private theorem prod_le_of_mem {d : ℝ} (hd : d ∈ ds) : ds.prod ≤ d := by
  induction ds with
  | nil => cases hd
  | cons c ds ih =>
    rw [List.forall_mem_cons] at h
    obtain ⟨⟨hc0, hc1⟩, hds⟩ := h
    obtain ⟨hp0, hp1⟩ : 0 ≤ ds.prod ∧ ds.prod ≤ 1 := Conjunction.product.value_mem hds
    rw [List.prod_cons]
    rcases List.mem_cons.mp hd with rfl | hd
    · exact mul_le_of_le_one_right hc0 hp1
    · exact (mul_le_of_le_one_left hp0 hc1).trans (ih hds hd)

private theorem sum_sub_le_prod : ds.sum - (ds.length - 1) ≤ ds.prod := by
  induction ds with
  | nil => simp
  | cons d ds ih =>
    rw [List.forall_mem_cons] at h
    obtain ⟨⟨-, hd1⟩, hds⟩ := h
    obtain ⟨-, hp1⟩ : 0 ≤ ds.prod ∧ ds.prod ≤ 1 := Conjunction.product.value_mem hds
    have hmissing : 0 ≤ (1 - d) * (1 - ds.prod) :=
      mul_nonneg (sub_nonneg.mpr hd1) (sub_nonneg.mpr hp1)
    calc (d :: ds).sum - ((d :: ds).length - 1)
        = d + (ds.sum - (ds.length - 1)) - 1 := by
          rw [List.sum_cons, List.length_cons, Nat.cast_succ]
          ring
      _ ≤ d + ds.prod - 1 := by linarith [ih hds]
      _ ≤ d * ds.prod := by linarith
      _ = (d :: ds).prod := List.prod_cons.symm

end Reals

/-! ### Greater degrees -/

/-- A degree is at most itself. -/
theorem Exact.le_self_of_isDegree {d : Exact} (h : IsDegree d) : d ≤ d := by
  obtain ⟨x, -, rfl⟩ := isDegree_iff.mp h
  exact number_le.mpr le_rfl

/-- Greater degrees come to a degree that is no smaller. -/
def MonotoneOnDegrees (F : List Exact → Exact) : Prop :=
  ∀ ⦃ds es : List Exact⦄, (∀ d ∈ ds, IsDegree d) → (∀ e ∈ es, IsDegree e) →
    List.Forall₂ (· ≤ ·) ds es → F ds ≤ F es

/-- Conjunctions are monotone. -/
theorem Conjunction.monotoneOnDegrees (op : Conjunction) : MonotoneOnDegrees op.combine := by
  intro ds es hds hes h
  obtain ⟨xs, hxs, rfl⟩ := Exact.exists_map_number fun d hd ↦ Exact.isDegree_iff.mp (hds d hd)
  obtain ⟨ys, -, rfl⟩ := Exact.exists_map_number fun e he ↦ Exact.isDegree_iff.mp (hes e he)
  rw [List.forall₂_map_left_iff, List.forall₂_map_right_iff] at h
  rw [op.combine_map_number, op.combine_map_number, Exact.number_le]
  exact op.value_mono h hxs

/-- What is monotone is so between complements. -/
theorem MonotoneOnDegrees.dual {F : List Exact → Exact} (hF : MonotoneOnDegrees F) :
    MonotoneOnDegrees fun ds ↦ 1 - F (ds.map (1 - ·)) := by
  intro ds es hds hes h
  rw [Exact.one_sub_le_one_sub]
  apply hF (Exact.isDegree_map_one_sub hes) (Exact.isDegree_map_one_sub hds)
  rw [List.forall₂_map_left_iff, List.forall₂_map_right_iff]
  exact h.flip.imp fun _ _ ↦ Exact.one_sub_le_one_sub.mpr

/-- Disjunctions are monotone. -/
theorem Disjunction.monotoneOnDegrees (op : Disjunction) : MonotoneOnDegrees op.combine := by
  obtain ⟨c, rfl⟩ := op.exists_dual
  rw [c.combine_dual]
  exact c.monotoneOnDegrees.dual

/-- Implications are monotone in the degree and in the conclusion. -/
theorem Implication.apply_le_apply (op : Implication) {d e m n : Exact} (hd : IsDegree d)
    (he : IsDegree e) (hm : IsDegree m) (hn : IsDegree n) (hde : d ≤ e) (hmn : m ≤ n) :
    op.apply d m ≤ op.apply e n := by
  obtain ⟨d, -, rfl⟩ := Exact.isDegree_iff.mp hd
  obtain ⟨e, ⟨he0, -⟩, rfl⟩ := Exact.isDegree_iff.mp he
  obtain ⟨m, ⟨hm0, -⟩, rfl⟩ := Exact.isDegree_iff.mp hm
  obtain ⟨n, -, rfl⟩ := Exact.isDegree_iff.mp hn
  rw [op.apply_number, op.apply_number, Exact.number_le]
  exact op.value_mono hm0 he0 hde hmn

private theorem Conjunction.dual_le_dual {c c' : Conjunction} {ds : List Exact}
    (h : c.combine (ds.map (1 - ·)) ≤ c'.combine (ds.map (1 - ·))) :
    c'.dual.combine ds ≤ c.dual.combine ds := by
  rw [combine_dual, combine_dual]
  exact Exact.one_sub_le_one_sub.mpr h

section Comparison

variable {ds : List Exact} (h : ∀ d ∈ ds, IsDegree d)

include h

/-! ### Stricter conjunctions -/

/-- The Łukasiewicz conjunction is at most the product. -/
theorem Conjunction.lukasiewicz_le_product : lukasiewicz.combine ds ≤ product.combine ds := by
  obtain ⟨xs, hxs, rfl⟩ := Exact.exists_map_number fun d hd ↦ Exact.isDegree_iff.mp (h d hd)
  rw [lukasiewicz.combine_map_number, product.combine_map_number, Exact.number_le]
  exact max_le (product.value_mem hxs).1 (sum_sub_le_prod hxs)

/-- The product is at most the minimum. -/
theorem Conjunction.product_le_minimum : product.combine ds ≤ minimum.combine ds := by
  obtain ⟨xs, hxs, rfl⟩ := Exact.exists_map_number fun d hd ↦ Exact.isDegree_iff.mp (h d hd)
  rw [product.combine_map_number, minimum.combine_map_number, Exact.number_le]
  exact le_minimum_value (product.value_mem hxs).2 fun _ ↦ prod_le_of_mem hxs

/-- The least of at least one degree is at most the greatest. -/
theorem minimum_le_maximum (hne : ds ≠ []) :
    Conjunction.minimum.combine ds ≤ Disjunction.maximum.combine ds := by
  obtain ⟨xs, hxs, rfl⟩ := Exact.exists_map_number fun d hd ↦ Exact.isDegree_iff.mp (h d hd)
  obtain ⟨x, hx⟩ := List.exists_mem_of_ne_nil xs (List.map_eq_nil_iff.not.mp hne)
  rw [Conjunction.combine_map_number, Disjunction.combine_map_number, Exact.number_le]
  exact (minimum_value_le hx).trans (le_maximum_value hx)

/-! ### Weaker disjunctions -/

/-- The maximum is at most the probabilistic sum. -/
theorem Disjunction.maximum_le_probabilisticSum :
    maximum.combine ds ≤ probabilisticSum.combine ds :=
  Conjunction.dual_le_dual (Conjunction.product_le_minimum (Exact.isDegree_map_one_sub h))

/-- The probabilistic sum is at most the bounded sum. -/
theorem Disjunction.probabilisticSum_le_boundedSum :
    probabilisticSum.combine ds ≤ boundedSum.combine ds :=
  Conjunction.dual_le_dual (Conjunction.lukasiewicz_le_product (Exact.isDegree_map_one_sub h))

end Comparison

/-! ### One degree more, or one greater degree -/

namespace Disjunction

variable (op : Disjunction) {before after : List Exact} {d e : Exact}

/-- A greater degree in its place does not lower a disjunction. -/
theorem combine_replace_le (hbefore : ∀ c ∈ before, IsDegree c) (hafter : ∀ c ∈ after, IsDegree c)
    (hd : IsDegree d) (he : IsDegree e) (hde : d ≤ e) :
    op.combine (before ++ d :: after) ≤ op.combine (before ++ e :: after) := by
  have hall {c : Exact} (hc : IsDegree c) : ∀ b ∈ before ++ c :: after, IsDegree b := by
    rw [List.forall_mem_append, List.forall_mem_cons]
    exact ⟨hbefore, hc, hafter⟩
  have hrefl {cs : List Exact} (hcs : ∀ c ∈ cs, IsDegree c) : List.Forall₂ (· ≤ ·) cs cs :=
    List.forall₂_same.mpr fun c hc ↦ Exact.le_self_of_isDegree (hcs c hc)
  exact op.monotoneOnDegrees (hall hd) (hall he)
    (List.rel_append (hrefl hbefore) (.cons hde (hrefl hafter)))

/-- A further degree does not lower a disjunction, as no degree at all counts for zero. -/
theorem combine_le_concat (hbefore : ∀ c ∈ before, IsDegree c) (hd : IsDegree d) :
    op.combine before ≤ op.combine (before ++ [d]) := by
  have hzero : op.combine (before ++ [0]) = op.combine before := by
    have hflat : op.combine (before ++ op.combine [] :: []) = op.combine (before ++ [] ++ []) :=
      op.groupsFreely.flatten_at (by simpa using hbefore)
    rwa [combine_nil, List.append_nil, List.append_nil] at hflat
  rw [← hzero]
  exact op.combine_replace_le hbefore (List.forall_mem_nil _) Exact.isDegree_zero hd hd.1

end Disjunction

end FuzzyInference
