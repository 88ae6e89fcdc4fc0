import FuzzyInference.Defuzzify
import FuzzyInference.Proofs.Operator.Combine

/-!
# Defuzzification without rounding

What the methods make of real points and memberships that are not negative. Each method names a
point between any bounds on the points, unless there are no points, or the centroid is to be taken
of memberships that are all zero; then the result is no number.
-/

namespace FuzzyInference

open Exact Scalar

/-! ### Centroids -/

namespace Defuzzification

/-- The sum of the points, weighted by their memberships. -/
def weighted (xs ms : List ℝ) : ℝ := ((xs.zip ms).map fun p ↦ p.1 * p.2).sum

private theorem moments_from (ps : List (ℝ × ℝ)) (a b : ℝ) :
    (ps.map (Prod.map number number)).foldl
      (fun (w, t) (x, m) ↦ (w + x * m, t + m)) (number a, number b) =
      (number (a + (ps.map fun p ↦ p.1 * p.2).sum), number (b + (ps.map Prod.snd).sum)) := by
  induction ps generalizing a b with
  | nil => simp
  | cons p ps ih =>
    rw [List.map_cons, List.foldl_cons]
    show List.foldl _ (number (a + p.1 * p.2), number (b + p.2)) _ = _
    rw [ih]
    simp [add_assoc]

/-- The moments of real points and memberships. -/
theorem moments_number {xs ms : List ℝ} (hlen : xs.length = ms.length) :
    moments (xs.map number) (ms.map number) = (number (weighted xs ms), number ms.sum) := by
  rw [moments, List.zip_map, zero_eq, moments_from, List.map_snd_zip hlen.ge, zero_add, zero_add]
  rfl

/-- The centroid of real points. -/
theorem centroidOf_number {xs ms : List ℝ} (hlen : xs.length = ms.length) :
    centroidOf (xs.map number) (ms.map number) =
      if ms.sum = 0 then nan else number (weighted xs ms / ms.sum) := by
  rw [centroidOf, moments_number hlen]
  simp only [zero_eq, number_beq, decide_eq_true_eq]
  split_ifs with hzero
  · rfl
  · exact number_div hzero

/-- A weighted sum is between the bounds on the points, times the sum of the weights. -/
theorem weighted_between {low high : ℝ} {xs ms : List ℝ} (hlen : xs.length = ms.length)
    (hxs : ∀ x ∈ xs, low ≤ x ∧ x ≤ high) (hms : ∀ m ∈ ms, 0 ≤ m) :
    low * ms.sum ≤ weighted xs ms ∧ weighted xs ms ≤ high * ms.sum := by
  induction xs generalizing ms with
  | nil =>
    obtain rfl : ms = [] := List.length_eq_zero_iff.mp hlen.symm
    simp [weighted]
  | cons x xs ih =>
    cases ms with
    | nil => cases hlen
    | cons m ms =>
      rw [List.forall_mem_cons] at hxs hms
      obtain ⟨hl, hh⟩ := ih (Nat.succ.inj hlen) hxs.2 hms.2
      have hweighted : weighted (x :: xs) (m :: ms) = x * m + weighted xs ms := by
        simp [weighted]
      have hlow : low * m ≤ x * m := mul_le_mul_of_nonneg_right hxs.1.1 hms.1
      have hhigh : x * m ≤ high * m := mul_le_mul_of_nonneg_right hxs.1.2 hms.1
      rw [hweighted, List.sum_cons, mul_add, mul_add]
      exact ⟨add_le_add hlow hl, add_le_add hhigh hh⟩

/-- Memberships that are not negative sum up to zero only if all of them are zero. -/
theorem sum_eq_zero_iff {ms : List ℝ} (hms : ∀ m ∈ ms, 0 ≤ m) :
    ms.sum = 0 ↔ ∀ m ∈ ms, m = 0 := by
  induction ms with
  | nil => simp
  | cons m ms ih =>
    rw [List.forall_mem_cons] at hms
    rw [List.sum_cons, List.forall_mem_cons, ← ih hms.2,
      add_eq_zero_iff_of_nonneg hms.1 (List.sum_nonneg hms.2)]

/-! ### Bisectors -/

/-- There are as many running sums as elements. -/
theorem length_runningSums {α : Type} [Scalar α] (total : α) (xs : List α) :
    (runningSums total xs).length = xs.length := by
  induction xs generalizing total with
  | nil => rfl
  | cons x xs ih => rw [runningSums, List.length_cons, ih, List.length_cons]

/-- The index of the bisector is that of a membership, if there are any. -/
theorem bisectorIndex_lt {α : Type} [Scalar α] {ms : List α} (hne : ms ≠ []) :
    bisectorIndex ms < ms.length := by
  have hpos : 0 < ms.length := List.length_pos_iff.mpr hne
  have hmin : bisectorIndex ms ≤ (runningSums 0 ms).toArray.size - 1 := min_le_right _ _
  rw [List.size_toArray, length_runningSums] at hmin
  omega

/-! ### Maxima -/

/-- The greatest of some real memberships. -/
theorem peak_number {ms : List ℝ} {m : ℝ} (h : ms.max? = some m) :
    peak (ms.map number) = number m := by
  cases ms with
  | nil => cases h
  | cons a ms =>
    have hstart : Scalar.max (-Scalar.infinity) (number a) = number a := by
      have hlt : -(Scalar.infinity : Exact) < number a := rfl
      have hnan : Scalar.isNan (-(Scalar.infinity : Exact)) = false := rfl
      rw [Scalar.max, hnan, isNan_number]
      simp [hlt]
    rw [List.max?_cons', Option.some.injEq] at h
    rw [peak, List.map_cons, List.foldl_cons, hstart, List.foldl_map, ← h]
    exact List.foldl_hom number fun _ _ ↦ max_number

/-- The points of greatest real membership. -/
theorem maxima_number {xs ms : List ℝ} {m : ℝ} (h : ms.max? = some m) :
    maxima (xs.map number) (ms.map number) =
      (((xs.zip ms).filter fun p ↦ p.2 = m).map Prod.fst).map number := by
  rw [maxima, peak_number h, List.zip_map, List.filter_map, List.map_map, List.map_map]
  simp [Function.comp_def]

/-- Some point is one of greatest membership, if there are points. -/
theorem maxima_ne_nil {xs ms : List ℝ} (hlen : xs.length = ms.length) (hne : xs ≠ []) :
    maxima (xs.map number) (ms.map number) ≠ [] := by
  have hms : ms ≠ [] := by
    rintro rfl
    exact hne (List.length_eq_zero_iff.mp hlen)
  obtain ⟨m, hm⟩ : ∃ m, ms.max? = some m :=
    Option.isSome_iff_exists.mp (List.isSome_max?_of_ne_nil hms)
  have hmem : m ∈ (xs.zip ms).map Prod.snd := by
    rw [List.map_snd_zip hlen.ge]
    exact List.max?_mem hm
  obtain ⟨p, hp, rfl⟩ := List.mem_map.mp hmem
  rw [maxima_number hm]
  apply List.ne_nil_of_mem (a := number p.1)
  exact List.mem_map_of_mem (List.mem_map_of_mem (List.mem_filter.mpr ⟨hp, by simp⟩))

/-- A point of greatest membership is one of the points. -/
theorem mem_of_mem_maxima {α : Type} [Scalar α] {xs ms : List α} {x : α} (h : x ∈ maxima xs ms) :
    x ∈ xs := by
  obtain ⟨p, hp, rfl⟩ := List.mem_map.mp h
  exact (List.of_mem_zip (List.mem_of_mem_filter hp)).1

/-- The median of some scalars has a property that these have and means keep. -/
theorem median_kept {α : Type} [Scalar α] {P : α → Prop}
    (hmean : ∀ x y, P x → P y → P ((x + y) / 2)) {xs : List α} (hne : xs ≠ [])
    (hxs : ∀ x ∈ xs, P x) : P (median xs) := by
  have hget {i : ℕ} (hi : i < xs.length) : P (xs.getD i nan) := by
    rw [List.getD_eq_getElem?_getD, List.getElem?_eq_getElem hi, Option.getD_some]
    exact hxs _ (List.getElem_mem hi)
  have hpos : 0 < xs.length := List.length_pos_iff.mpr hne
  rw [median]
  split_ifs with hzero hodd
  · omega
  · exact hget (by omega)
  · exact hmean _ _ (hget (by omega)) (hget (by omega))

/-! ### All methods -/

variable {xs ms : List ℝ} {method : Defuzzification}

/-- There is no result on no points, and none for the centroid of memberships that are all zero. -/
theorem reduce_eq_nan (hlen : xs.length = ms.length) (hms : ∀ m ∈ ms, 0 ≤ m)
    (h : xs = [] ∨ method = .centroid ∧ ∀ m ∈ ms, m = 0) :
    method.reduce (xs.map number) (ms.map number) = nan := by
  unfold reduce
  split_ifs with hempty
  · rfl
  · have hne : xs ≠ [] := by simpa using hempty
    obtain ⟨rfl, hzero⟩ := h.resolve_left hne
    show centroidOf (xs.map number) (ms.map number) = nan
    rw [centroidOf_number hlen, if_pos ((sum_eq_zero_iff hms).mpr hzero)]

/-- In all other cases the result is between any bounds on the points. -/
theorem reduce_between {low high : ℝ} (hlen : xs.length = ms.length) (hms : ∀ m ∈ ms, 0 ≤ m)
    (hxs : ∀ x ∈ xs, low ≤ x ∧ x ≤ high)
    (h : ¬ (xs = [] ∨ method = .centroid ∧ ∀ m ∈ ms, m = 0)) :
    ∃ y, method.reduce (xs.map number) (ms.map number) = number y ∧ low ≤ y ∧ y ≤ high := by
  rw [not_or] at h
  obtain ⟨hne, hzero⟩ := h
  have hempty : (xs.map number).isEmpty = false := by simpa using hne
  unfold reduce
  simp only [hempty, Bool.false_eq_true, if_false]
  -- Points within the bounds, as scalars.
  have hpoints : ∀ a ∈ xs.map number, ∃ y, a = number y ∧ low ≤ y ∧ y ≤ high := by
    rw [List.forall_mem_map]
    exact fun x hx ↦ ⟨x, rfl, hxs x hx⟩
  have hmaxima : ∀ a ∈ maxima (xs.map number) (ms.map number),
      ∃ y, a = number y ∧ low ≤ y ∧ y ≤ high := fun a ha ↦ hpoints a (mem_of_mem_maxima ha)
  have hmne := maxima_ne_nil hlen hne
  cases method with
  | centroid =>
    have hsum : ms.sum ≠ 0 := fun hsum ↦ hzero ⟨rfl, (sum_eq_zero_iff hms).mp hsum⟩
    have hpos : 0 < ms.sum := lt_of_le_of_ne (List.sum_nonneg hms) (Ne.symm hsum)
    obtain ⟨hlow, hhigh⟩ := weighted_between hlen hxs hms
    refine ⟨weighted xs ms / ms.sum, ?_, (le_div_iff₀ hpos).mpr hlow, (div_le_iff₀ hpos).mpr hhigh⟩
    show centroidOf (xs.map number) (ms.map number) = _
    rw [centroidOf_number hlen, if_neg hsum]
  | bisector =>
    have hindex : bisectorIndex (ms.map number) < (xs.map number).length := by
      have hms : ms.map number ≠ [] := by
        rw [Ne, List.map_eq_nil_iff]
        rintro rfl
        exact hne (List.length_eq_zero_iff.mp hlen)
      rw [List.length_map, hlen, ← List.length_map (f := number)]
      exact bisectorIndex_lt hms
    show ∃ y, (xs.map number).getD (bisectorIndex (ms.map number)) Scalar.nan = number y ∧ _
    rw [List.getD_eq_getElem?_getD, List.getElem?_eq_getElem hindex, Option.getD_some]
    exact hpoints _ (List.getElem_mem hindex)
  | middleOfMaxima =>
    apply median_kept _ hmne hmaxima
    rintro _ _ ⟨x, rfl, hx⟩ ⟨y, rfl, hy⟩
    refine ⟨(x + y) / 2, ?_, by linarith, by linarith⟩
    rw [number_add, two_eq, number_div two_ne_zero]
  | smallestOfMaxima => exact minimum?_kept (fun hnil ↦ absurd hnil hmne) hmaxima
  | largestOfMaxima => exact maximum?_kept (fun hnil ↦ absurd hnil hmne) hmaxima

end Defuzzification

end FuzzyInference
