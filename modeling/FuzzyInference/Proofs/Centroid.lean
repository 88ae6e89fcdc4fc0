import FuzzyInference.Proofs.Defuzzify

/-!
# Centroids as quotients

The centroid of finite points is the sum of the points, weighted by their memberships, over the sum
of the memberships, if no membership is negative: where the latter is zero the former is too, and
the quotient is no number either.
-/

namespace FuzzyInference

open Exact

namespace Exact

/-- Two scalars that are not negative are both zero if their sum is. -/
protected theorem add_eq_zero_iff {a b : Exact} (ha : number 0 ≤ a) (hb : number 0 ≤ b) :
    a + b = number 0 ↔ a = number 0 ∧ b = number 0 := by
  refine ⟨?_, fun ⟨ha, hb⟩ ↦ by rw [ha, hb, number_add, add_zero]⟩
  intro h
  cases a with
  | nan => cases ha
  | infinite s =>
    cases b with
    | number y => cases h
    | infinite t =>
      cases ha
      cases hb
      cases h
    | nan => cases hb
  | number x =>
    cases b with
    | nan => cases hb
    | infinite s => cases h
    | number y =>
      have hsum : x + y = 0 := by simpa using h
      obtain ⟨hx, hy⟩ := (add_eq_zero_iff_of_nonneg (number_le.mp ha) (number_le.mp hb)).mp hsum
      exact ⟨congrArg number hx, congrArg number hy⟩

/-- The sum of scalars that are not negative is not negative. -/
protected theorem add_nonneg {a b : Exact} (ha : number 0 ≤ a) (hb : number 0 ≤ b) :
    number 0 ≤ a + b := by
  cases a with
  | nan => cases ha
  | infinite s =>
    cases b with
    | number y => exact ha
    | infinite t =>
      cases ha
      cases hb
      rfl
    | nan => cases hb
  | number x =>
    cases b with
    | nan => cases hb
    | infinite s => exact hb
    | number y => exact number_le.mpr (add_nonneg (number_le.mp ha) (number_le.mp hb))

/-- Zero has no quotient by zero. -/
theorem zero_div_zero : number 0 / number 0 = nan := by
  show div _ _ = _
  simp [div]

end Exact

namespace Defuzzification

section

variable {α : Type} [Scalar α]

/-- A further point adds its membership to the moments, and its product with that. -/
theorem moments_concat {xs ms : List α} (hlen : xs.length = ms.length) (x m : α) :
    moments (xs ++ [x]) (ms ++ [m]) =
      ((moments xs ms).1 + x * m, (moments xs ms).2 + m) := by
  rw [moments, List.zip_append hlen, List.foldl_append]
  rfl

end

/-- The moments of no points are zero. -/
theorem moments_nil : moments ([] : List Exact) [] = (number 0, number 0) := by
  simp [moments]

/-- If no membership is negative, the moments of finite points have a total that is not negative,
and both are zero if the total is. -/
theorem moments_of_nonneg {xs ms : List Exact} (hlen : xs.length = ms.length)
    (hxs : ∀ x ∈ xs, Scalar.isFinite x = true) (hms : ∀ m ∈ ms, number 0 ≤ m) :
    number 0 ≤ (moments xs ms).2 ∧
      ((moments xs ms).2 = number 0 → (moments xs ms).1 = number 0) := by
  induction xs using List.reverseRecOn generalizing ms with
  | nil =>
    rw [List.length_eq_zero_iff.mp hlen.symm, moments_nil]
    exact ⟨number_le.mpr le_rfl, fun _ ↦ rfl⟩
  | append_singleton xs x ih =>
    cases ms using List.reverseRecOn with
    | nil => simp at hlen
    | append_singleton ms m =>
      have hlen : xs.length = ms.length := by simpa using hlen
      rw [List.forall_mem_append, List.forall_mem_singleton] at hxs hms
      obtain ⟨htotal, hweighted⟩ := ih hlen hxs.1 hms.1
      rw [moments_concat hlen]
      refine ⟨Exact.add_nonneg htotal hms.2, fun hsum ↦ ?_⟩
      obtain ⟨hzero, hm⟩ := (Exact.add_eq_zero_iff htotal hms.2).mp hsum
      obtain ⟨y, rfl⟩ := isFinite_iff.mp hxs.2
      show _ + number y * m = _
      rw [hweighted hzero, hm, number_mul, mul_zero, number_add, add_zero]

/-- The centroid is the quotient of the moments. -/
theorem centroid_eq_div {xs ms : List Exact} (hlen : xs.length = ms.length)
    (hxs : ∀ x ∈ xs, Scalar.isFinite x = true) (hms : ∀ m ∈ ms, number 0 ≤ m) :
    centroid.reduce xs ms = (moments xs ms).1 / (moments xs ms).2 := by
  cases xs with
  | nil =>
    rw [List.length_eq_zero_iff.mp hlen.symm, moments_nil]
    exact zero_div_zero.symm
  | cons x xs =>
    show centroidOf _ _ = _
    unfold centroidOf
    simp only
    split_ifs with htotal
    · rw [zero_eq] at htotal
      have htotal := eq_of_beq_number htotal
      rw [(moments_of_nonneg hlen hxs hms).2 htotal, htotal]
      exact zero_div_zero.symm
    · rfl

/-- The centroid of finite points and memberships that are not negative is no number exactly if both
moments are zero. -/
theorem centroid_eq_nan_iff {xs ms : List Exact} (hlen : xs.length = ms.length)
    (hxs : ∀ x ∈ xs, Scalar.isFinite x = true) (hms : ∀ m ∈ ms, number 0 ≤ m)
    (hfinite : ∀ m ∈ ms, Scalar.isFinite m = true) :
    centroid.reduce xs ms = nan ↔ moments xs ms = (number 0, number 0) := by
  obtain ⟨-, hweighted⟩ := moments_of_nonneg hlen hxs hms
  rw [centroid_eq_div hlen hxs hms]
  obtain ⟨xs, -, rfl⟩ := exists_map_number (p := fun _ ↦ True) fun x hx ↦ by
    simpa using isFinite_iff.mp (hxs x hx)
  obtain ⟨ms, -, rfl⟩ := exists_map_number (p := fun _ ↦ True) fun m hm ↦ by
    simpa using isFinite_iff.mp (hfinite m hm)
  rw [moments_number (by simpa using hlen)] at hweighted ⊢
  constructor
  · intro h
    have htotal : ms.sum = 0 := by
      by_contra hne
      rw [number_div hne] at h
      cases h
    have hw := hweighted (congrArg number htotal)
    rw [Prod.mk.injEq]
    exact ⟨hw, congrArg number htotal⟩
  · intro h
    rw [Prod.mk.injEq] at h
    show number _ / number _ = _
    rw [h.1, h.2, zero_div_zero]

end Defuzzification

end FuzzyInference
