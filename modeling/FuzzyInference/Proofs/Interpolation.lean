import FuzzyInference.Interpolation
import FuzzyInference.Proofs.Operator.Combine

/-!
# Heights of polygons

In exact arithmetic a polygon has a height above every number: that of the first segment that spans
it. It lies between any bounds on the heights of the corners. Above what is no number there is none,
but not an infinite one either.
-/

namespace FuzzyInference.Interpolation

open Exact

variable {x low high : ℝ}

/-- The corners of a polygon as scalars. -/
def corners (points : List (ℝ × ℝ)) : List (Exact × Exact) :=
  points.map fun p ↦ (number p.1, number p.2)

/-- Before its first corner a polygon is as high as there. -/
theorem height_before {p : ℝ × ℝ} {points : List (ℝ × ℝ)} (hx : x < p.1) :
    height (number x) (corners (p :: points)) = number p.2 :=
  if_pos hx

/-- From its first corner on, the height of a polygon is found segment by segment. -/
theorem height_eq_heightFrom {p : ℝ × ℝ} {points : List (ℝ × ℝ)} (hx : p.1 ≤ x) :
    height (number x) (corners (p :: points)) = heightFrom (number x) (corners (p :: points)) :=
  if_neg (not_lt.mpr hx)

/-- The last corner gives its height to all that is not before it. -/
theorem heightFrom_last {p : ℝ × ℝ} (hx : p.1 ≤ x) :
    heightFrom (number x) (corners [p]) = number p.2 :=
  if_pos hx

/-- A segment that ends before `x` has no part in the height at `x`. -/
theorem heightFrom_behind {p q : ℝ × ℝ} {points : List (ℝ × ℝ)} (hx : q.1 < x) :
    heightFrom (number x) (corners (p :: q :: points)) =
      heightFrom (number x) (corners (q :: points)) :=
  if_neg fun h ↦ (number_le.mp h.2).not_gt hx

/-- The first segment that spans `x` decides about the height at `x`: it is that of its second
corner if the segment is vertical. -/
theorem heightFrom_within {p q : ℝ × ℝ} {points : List (ℝ × ℝ)} (hp : p.1 ≤ x) (hq : x ≤ q.1) :
    heightFrom (number x) (corners (p :: q :: points)) =
      number (if q.1 = p.1 then q.2 else p.2 + (x - p.1) * (q.2 - p.2) / (q.1 - p.1)) := by
  have hspan : heightFrom (number x) (corners (p :: q :: points)) =
      lerp (number x) (number p.1) (number p.2) (number q.1) (number q.2) := if_pos ⟨hp, hq⟩
  rw [hspan, lerp]
  simp only [number_beq, decide_eq_true_eq]
  split_ifs with heq
  · rfl
  · rw [number_sub, number_sub, number_sub, number_mul, number_div (sub_ne_zero.mpr heq),
      number_add]

/-- A corner that is listed twice behind another one counts once. -/
theorem height_repeated {p q : ℝ × ℝ} {points : List (ℝ × ℝ)} :
    height (number x) (corners (p :: q :: q :: points)) =
      height (number x) (corners (p :: q :: points)) := by
  by_cases hp : x < p.1
  · rw [height_before hp, height_before hp]
  rw [not_lt] at hp
  rw [height_eq_heightFrom hp, height_eq_heightFrom hp]
  by_cases hq : x ≤ q.1
  · rw [heightFrom_within hp hq, heightFrom_within hp hq]
  · rw [not_le] at hq
    rw [heightFrom_behind hq, heightFrom_behind hq, heightFrom_behind hq]

/-- The height on a line between two corners lies between their heights. -/
theorem line_between {x₁ y₁ x₂ y₂ : ℝ} (h₁ : x₁ ≤ x) (h₂ : x ≤ x₂) (hy₁ : low ≤ y₁ ∧ y₁ ≤ high)
    (hy₂ : low ≤ y₂ ∧ y₂ ≤ high) :
    low ≤ (if x₂ = x₁ then y₂ else y₁ + (x - x₁) * (y₂ - y₁) / (x₂ - x₁)) ∧
      (if x₂ = x₁ then y₂ else y₁ + (x - x₁) * (y₂ - y₁) / (x₂ - x₁)) ≤ high := by
  by_cases heq : x₂ = x₁
  · rwa [if_pos heq]
  · have hpos : 0 < x₂ - x₁ := sub_pos.mpr (lt_of_le_of_ne (h₁.trans h₂) (Ne.symm heq))
    -- The height is a mean of the two heights, weighted by `t` and `1 - t`.
    obtain ⟨t, ht⟩ : ∃ t, t = (x - x₁) / (x₂ - x₁) := ⟨_, rfl⟩
    have ht0 : 0 ≤ t := ht ▸ div_nonneg (sub_nonneg.mpr h₁) hpos.le
    have ht1 : t ≤ 1 := ht ▸ (div_le_one hpos).mpr (by linarith)
    rw [if_neg heq, mul_div_right_comm, ← ht]
    constructor
    · nlinarith
    · nlinarith

/-- From the first corner on, a polygon has a height between the bounds on its corners. -/
theorem heightFrom_between {p : ℝ × ℝ} {points : List (ℝ × ℝ)} (hx : p.1 ≤ x)
    (h : ∀ q ∈ p :: points, low ≤ q.2 ∧ q.2 ≤ high) :
    ∃ y, heightFrom (number x) (corners (p :: points)) = number y ∧ low ≤ y ∧ y ≤ high := by
  induction points generalizing p with
  | nil => exact ⟨p.2, heightFrom_last hx, h p (by simp)⟩
  | cons q points ih =>
    by_cases hq : x ≤ q.1
    · exact ⟨_, heightFrom_within hx hq, line_between hx hq (h p (by simp)) (h q (by simp))⟩
    · rw [not_le] at hq
      rw [heightFrom_behind hq]
      exact ih hq.le fun r hr ↦ h r (List.mem_cons_of_mem _ hr)

/-- A polygon with corners has a height above every number, between the bounds on its corners. -/
theorem height_between {points : List (ℝ × ℝ)} (hne : points ≠ [])
    (h : ∀ q ∈ points, low ≤ q.2 ∧ q.2 ≤ high) :
    ∃ y, height (number x) (corners points) = number y ∧ low ≤ y ∧ y ≤ high := by
  obtain ⟨p, points, rfl⟩ := List.exists_cons_of_ne_nil hne
  by_cases hbelow : x < p.1
  · exact ⟨p.2, height_before hbelow, h p (by simp)⟩
  · rw [not_lt] at hbelow
    rw [height_eq_heightFrom hbelow]
    exact heightFrom_between hbelow h

/-- A polygon with corners has a height above every number. -/
theorem exists_height {points : List (ℝ × ℝ)} (hne : points ≠ []) :
    ∃ y, height (number x) (corners points) = number y := by
  obtain ⟨low, hlow⟩ := (points.map Prod.snd).toFinset.bddBelow
  obtain ⟨high, hhigh⟩ := (points.map Prod.snd).toFinset.bddAbove
  have hbounds : ∀ q ∈ points, low ≤ q.2 ∧ q.2 ≤ high := by
    intro q hq
    have hmem : q.2 ∈ (points.map Prod.snd).toFinset :=
      List.mem_toFinset.mpr (List.mem_map_of_mem hq)
    exact ⟨hlow hmem, hhigh hmem⟩
  obtain ⟨y, hy, -⟩ := height_between hne hbounds
  exact ⟨y, hy⟩

/-! ### Infinities -/

/-- From the first corner on, a polygon has no infinite height. -/
theorem notInfinite_heightFrom (x : Exact) :
    ∀ points : List (ℝ × ℝ), NotInfinite (heightFrom x (corners points))
  | [] => nofun
  | [p] => by
    show NotInfinite (if number p.1 ≤ x then number p.2 else nan)
    split_ifs
    · exact notInfinite_number _
    · exact notInfinite_nan
  | p :: q :: points => by
    show NotInfinite (if number p.1 ≤ x ∧ x ≤ number q.1 then
      lerp x (number p.1) (number p.2) (number q.1) (number q.2)
        else heightFrom x (corners (q :: points)))
    split_ifs with hspan
    · have hx : NotInfinite x := by
        rintro s rfl
        cases s with
        | false => cases hspan.2
        | true => cases hspan.1
      unfold lerp
      split_ifs with heq
      · exact notInfinite_number _
      · have hwidth : (number q.1 - number p.1 == 0) = false := by
          simpa [sub_eq_zero] using heq
        have hrun := (notInfinite_arithmetic hx (notInfinite_number p.1)).2.1
        have hrise := (notInfinite_arithmetic hrun (notInfinite_number (q.2 - p.2))).2.2
        rw [number_sub (x := q.2)]
        exact (notInfinite_arithmetic (notInfinite_number p.2)
          (notInfinite_div hrise hwidth)).1
    · exact notInfinite_heightFrom x (q :: points)

/-- A polygon has no infinite height. -/
theorem notInfinite_height (x : Exact) (points : List (ℝ × ℝ)) :
    NotInfinite (height x (corners points)) := by
  cases points with
  | nil => exact notInfinite_nan
  | cons p points =>
    show NotInfinite (if x < number p.1 then number p.2 else heightFrom x (corners (p :: points)))
    split_ifs
    · exact notInfinite_number _
    · exact notInfinite_heightFrom x _

end FuzzyInference.Interpolation
