import FuzzyInference.Proofs.FuzzySet.WellFormed
import FuzzyInference.Proofs.Interpolation

/-!
# Degrees in shapes

In exact arithmetic the degree of a number in a sound shape is finite, and it is in the unit
interval if the heights that a polygon lists are. What is no number may have no degree, but nothing
has an infinite one.
-/

namespace FuzzyInference

open Scalar

/-! ### Quotients -/

namespace Exact

/-- A part of something is a degree of it. -/
theorem isDegree_div {x y : ℝ} (hx : 0 ≤ x) (hxy : x ≤ y) (hy : 0 < y) :
    IsDegree (number x / number y) := by
  rw [number_div_of_pos hy, isDegree_number]
  exact ⟨div_nonneg hx hy.le, (div_le_one hy).mpr hxy⟩

/-- One, divided by at least one, is a degree. -/
theorem isDegree_one_div {a : Exact} (ha : 0 ≤ a) : IsDegree (1 / (1 + a)) := by
  cases a with
  | number x =>
    have hx : 0 ≤ x := by simpa using ha
    rw [ofNat_eq, Nat.cast_one, number_add]
    exact isDegree_div zero_le_one (by linarith) (by linarith)
  | infinite s =>
    cases s with
    | false => exact isDegree_number.mpr ⟨le_rfl, zero_le_one⟩
    | true => cases ha
  | nan => cases ha

/-- A scalar that is not negative, if it is a number or an infinity. -/
def NonnegOrNan (a : Exact) : Prop := 0 ≤ a ∨ a = nan

private theorem nonnegOrNan_number {x : ℝ} (hx : 0 ≤ x) : NonnegOrNan (number x) := by
  left
  simpa using hx

private theorem nonnegOrNan_infinite : NonnegOrNan (infinite false) := .inl rfl

/-- No exponential is negative. -/
theorem nonnegOrNan_exp (a : Exact) : NonnegOrNan (Scalar.exp a) := by
  cases a with
  | number x => exact nonnegOrNan_number (Real.exp_pos x).le
  | infinite s =>
    cases s with
    | false => exact nonnegOrNan_infinite
    | true => exact nonnegOrNan_number le_rfl
  | nan => exact .inr rfl

/-- No power of an absolute value to a number is negative. -/
theorem powNumber_abs_nonneg (x y : ℝ) : 0 ≤ powNumber |x| y := by
  rw [powNumber]
  split_ifs with hzero hnegative
  · exact rfl
  · exact absurd hnegative.1 (abs_nonneg x).not_gt
  · simpa using Real.rpow_nonneg (abs_nonneg x) y

/-- No power of an absolute value is negative. -/
theorem nonnegOrNan_pow_abs (a b : Exact) : NonnegOrNan (Scalar.pow (Scalar.abs a) b) := by
  show NonnegOrNan (pow (Scalar.abs a) b)
  cases a with
  | number x =>
    rw [abs_number]
    cases b with
    | number y => exact .inl (powNumber_abs_nonneg x y)
    | infinite t =>
      rw [pow, powInfinite]
      split_ifs
      · exact nonnegOrNan_number zero_le_one
      · exact nonnegOrNan_infinite
      · exact nonnegOrNan_number le_rfl
    | nan =>
      rw [pow]
      split_ifs
      · exact nonnegOrNan_number zero_le_one
      · exact .inr rfl
  | infinite s =>
    show NonnegOrNan (pow (infinite false) b)
    cases b with
    | number y =>
      rw [pow, infinitePow]
      split_ifs
      · exact nonnegOrNan_number zero_le_one
      · exact nonnegOrNan_number le_rfl
      · exact nonnegOrNan_infinite
    | infinite t =>
      cases t with
      | false => exact nonnegOrNan_infinite
      | true => exact nonnegOrNan_number le_rfl
    | nan => exact .inr rfl
  | nan =>
    show NonnegOrNan (pow nan b)
    cases b with
    | number y =>
      rw [pow]
      split_ifs
      · exact nonnegOrNan_number zero_le_one
      · exact .inr rfl
    | infinite t => exact .inr rfl
    | nan => exact .inr rfl

/-- One, divided by one and what is not negative, is no infinity. -/
theorem notInfinite_one_div {a : Exact} (ha : NonnegOrNan a) : NotInfinite (1 / (1 + a)) := by
  rcases ha with ha | rfl
  · exact notInfinite_of_isDegree (isDegree_one_div ha)
  · exact nofun

end Exact

/-! ### Degrees of numbers -/

namespace Shape

open Exact

section Numbers

variable {x a b c d : ℝ}

private theorem isDegree_rise (ha : a ≤ x) (hb : x < b) :
    IsDegree ((number x - number a) / (number b - number a)) := by
  rw [number_sub, number_sub]
  exact isDegree_div (by linarith) (by linarith) (by linarith)

private theorem isDegree_fall (hb : b < c) (hbx : b ≤ x) (hx : x ≤ c) :
    IsDegree ((number c - number x) / (number c - number b)) := by
  rw [number_sub, number_sub]
  exact isDegree_div (by linarith) (by linarith) (by linarith)

/-- A number has a degree in a trapezoid, whatever its corners are. -/
theorem isDegree_trapezoid :
    IsDegree (trapezoid (number x) (number a) (number b) (number c) (number d)) := by
  unfold trapezoid
  simp only [number_lt, number_le, number_beq, decide_eq_true_eq]
  split_ifs with hout hrise hba hc
  · exact isDegree_zero
  · exact isDegree_one
  · rw [not_or, not_lt] at hout
    exact isDegree_rise hout.1 hrise
  · exact isDegree_one
  · rw [not_or, not_lt, not_lt] at hout
    rw [not_le] at hc
    exact isDegree_fall (hc.trans_le hout.2) hc.le hout.2

/-- A triangle is a trapezoid with a single point for a core. -/
theorem triangle_eq_trapezoid : triangle (number x) (number a) (number b) (number c) =
    trapezoid (number x) (number a) (number b) (number b) (number c) := by
  unfold triangle trapezoid
  simp only [number_lt, number_le, number_beq, decide_eq_true_eq]
  by_cases hout : x < a ∨ c < x
  · rw [if_pos hout, if_pos hout]
  rw [if_neg hout, if_neg hout]
  by_cases hrise : x < b
  · rw [if_pos hrise, if_pos hrise]
  rw [if_neg hrise, if_neg hrise]
  rw [not_or, not_lt, not_lt] at hout
  rw [not_lt] at hrise
  obtain hlt | rfl := hrise.lt_or_eq
  · rw [if_neg (hlt.trans_le hout.2).ne', if_neg hlt.not_ge]
  · rw [if_pos le_rfl]
    split_ifs with hedge
    · rfl
    · rw [number_sub, number_div (sub_ne_zero.mpr hedge), div_self (sub_ne_zero.mpr hedge), one_eq]

/-- A number has a degree in a triangle, whatever its corners are. -/
theorem isDegree_triangle : IsDegree (triangle (number x) (number a) (number b) (number c)) := by
  rw [triangle_eq_trapezoid]
  exact isDegree_trapezoid

/-- A number has a degree in a bell of any width but zero. -/
theorem isDegree_gauss {width center : ℝ} (hw : width ≠ 0) :
    IsDegree (gauss (number x) (number width) (number center)) := by
  rw [gauss, number_sub, number_div hw, square_number, neg_number, two_eq,
    number_div two_ne_zero, exp_number, isDegree_number]
  have hsq : 0 ≤ ((x - center) / width) ^ 2 := sq_nonneg _
  exact ⟨(Real.exp_pos _).le, Real.exp_le_one_iff.mpr (by linarith)⟩

/-- A number has a degree in the halves of two bells. -/
theorem isDegree_gaussHalves {width₁ center₁ width₂ center₂ : ℝ} (hw₁ : width₁ ≠ 0)
    (hw₂ : width₂ ≠ 0) :
    IsDegree (gaussHalves (number x) (number width₁) (number center₁) (number width₂)
      (number center₂)) := by
  unfold gaussHalves
  split_ifs
  · exact isDegree_gauss hw₁
  · exact isDegree_gauss hw₂
  · exact isDegree_one

/-- A number has a degree in a generalized bell of any width but zero. -/
theorem isDegree_generalizedBell (ha : a ≠ 0) :
    IsDegree (generalizedBell (number x) (number a) (number b) (number c)) := by
  rw [generalizedBell, number_sub, number_div ha, abs_number, two_eq, number_mul]
  exact isDegree_one_div (powNumber_abs_nonneg _ _)

/-- A number has a degree in a logistic curve. -/
theorem isDegree_logistic {slope center : ℝ} :
    IsDegree (logistic (number x) (number slope) (number center)) := by
  rw [logistic, number_sub, neg_number, number_mul, exp_number]
  apply isDegree_one_div
  simpa using (Real.exp_pos _).le

private theorem isDegree_twice_square {y w : ℝ} (hw : 0 < w) (h0 : -w ≤ 2 * y) (h1 : 2 * y ≤ w) :
    IsDegree (2 * Scalar.square (number y / number w)) := by
  rw [number_div_of_pos hw, square_number, two_eq, number_mul, isDegree_number]
  have hsq : (y / w) ^ 2 ≤ (1 / 2) ^ 2 := by
    apply sq_le_sq'
    · rw [le_div_iff₀ hw]
      linarith
    · rw [div_le_iff₀ hw]
      linarith
  exact ⟨by positivity, by linarith⟩

/-- A number has a degree in a spline, whatever its knots are. -/
theorem isDegree_spline : IsDegree (spline (number x) (number a) (number b)) := by
  unfold spline
  simp only [number_lt, number_le, number_add, number_sub, two_eq, number_div two_ne_zero]
  rw [← two_eq]
  split_ifs with hlow hhigh hhalf
  · exact isDegree_zero
  · exact isDegree_one
  · rw [not_lt] at hlow
    rw [not_le] at hhigh
    exact isDegree_twice_square (by linarith) (by linarith) (by linarith)
  · rw [not_le] at hhigh hhalf
    exact kept_isDegree.complement
      (isDegree_twice_square (by linarith) (by linarith) (by linarith))

end Numbers

/-! ### Infinities -/

section Infinities

variable {a b c d : ℝ}

private theorem infinite_div_of_pos {s : Bool} {y : ℝ} (hy : 0 < y) :
    infinite s / number y = infinite s := by
  show div (infinite s) (number y) = infinite s
  simp [div, hy.not_gt]

private theorem infinite_outside (s : Bool) :
    infinite s < number a ∨ number b < infinite s := by
  cases s with
  | false => exact .inr rfl
  | true => exact .inl rfl

/-- Nothing has an infinite degree in a triangle. -/
theorem notInfinite_triangle (x : Exact) :
    NotInfinite (triangle x (number a) (number b) (number c)) := by
  cases x with
  | number x => exact notInfinite_of_isDegree isDegree_triangle
  | infinite s =>
    rw [triangle, if_pos (infinite_outside s)]
    exact notInfinite_number _
  | nan =>
    unfold triangle
    split_ifs <;> exact nofun

/-- Nothing has an infinite degree in a trapezoid. -/
theorem notInfinite_trapezoid (x : Exact) :
    NotInfinite (trapezoid x (number a) (number b) (number c) (number d)) := by
  cases x with
  | number x => exact notInfinite_of_isDegree isDegree_trapezoid
  | infinite s =>
    rw [trapezoid, if_pos (infinite_outside s)]
    exact notInfinite_number _
  | nan =>
    unfold trapezoid
    split_ifs <;> exact nofun

/-- Nothing has an infinite degree in a bell. -/
theorem notInfinite_gauss (x width center : Exact) : NotInfinite (gauss x width center) := by
  rw [gauss]
  cases (x - center) / width with
  | number t =>
    rw [square_number, neg_number, two_eq, number_div two_ne_zero, exp_number]
    exact notInfinite_number _
  | infinite s =>
    have hsquare : -Scalar.square (infinite s) = infinite true := by cases s <;> rfl
    rw [hsquare, two_eq, infinite_div_of_pos two_pos]
    exact notInfinite_number 0
  | nan => exact nofun

/-- Nothing has an infinite degree in the halves of two bells. -/
theorem notInfinite_gaussHalves (x width₁ center₁ width₂ center₂ : Exact) :
    NotInfinite (gaussHalves x width₁ center₁ width₂ center₂) := by
  unfold gaussHalves
  split_ifs
  · exact notInfinite_gauss _ _ _
  · exact notInfinite_gauss _ _ _
  · exact notInfinite_number _

/-- Nothing has an infinite degree in a generalized bell. -/
theorem notInfinite_generalizedBell (x a b c : Exact) :
    NotInfinite (generalizedBell x a b c) :=
  notInfinite_one_div (nonnegOrNan_pow_abs _ _)

/-- Nothing has an infinite degree in a logistic curve. -/
theorem notInfinite_logistic (x slope center : Exact) : NotInfinite (logistic x slope center) :=
  notInfinite_one_div (nonnegOrNan_exp _)

/-- Nothing has an infinite degree in a spline. -/
theorem notInfinite_spline (x : Exact) : NotInfinite (spline x (number a) (number b)) := by
  cases x with
  | number x => exact notInfinite_of_isDegree isDegree_spline
  | infinite s =>
    unfold spline
    cases s with
    | false =>
      have hlow : ¬ infinite false < number a := nofun
      have hhigh : number b ≤ infinite false := rfl
      rw [if_neg hlow, if_pos hhigh]
      exact notInfinite_number _
    | true =>
      have hlow : infinite true < number a := rfl
      rw [if_pos hlow]
      exact notInfinite_number _
  | nan =>
    unfold spline
    split_ifs <;> exact nofun

private theorem notInfinite_clamp {y : Exact} (hy : NotInfinite y) :
    NotInfinite (Scalar.clamp 0 1 y) := by
  unfold Scalar.clamp
  split_ifs
  · exact notInfinite_number _
  · exact notInfinite_number _
  · exact hy

end Infinities

/-! ### Sound shapes -/

/-- A shape with real parameters, as one with scalars for parameters. -/
def exact : Shape ℝ → Shape Exact
  | triangular a b c => triangular (number a) (number b) (number c)
  | trapezoidal a b c d => trapezoidal (number a) (number b) (number c) (number d)
  | gaussian a b => gaussian (number a) (number b)
  | twoSidedGaussian a b c d => twoSidedGaussian (number a) (number b) (number c) (number d)
  | bell a b c => bell (number a) (number b) (number c)
  | sigmoid a b => sigmoid (number a) (number b)
  | sigmoidProduct a b c d => sigmoidProduct (number a) (number b) (number c) (number d)
  | sigmoidDifference a b c d => sigmoidDifference (number a) (number b) (number c) (number d)
  | sShaped a b => sShaped (number a) (number b)
  | zShaped a b => zShaped (number a) (number b)
  | piShaped a b c d => piShaped (number a) (number b) (number c) (number d)
  | piecewise points => piecewise (Interpolation.corners points)

section WellFormed

variable {curve : Shape Exact}

private theorem exists_corners {points : List (Exact × Exact)}
    (h : ∀ y ∈ (piecewise points).numbers, ∃ x, y = number x) :
    ∃ ps, points = Interpolation.corners ps := by
  rw [numbers, List.forall_mem_append, List.forall_mem_map, List.forall_mem_map] at h
  obtain ⟨hx, hy⟩ := h
  induction points with
  | nil => exact ⟨[], rfl⟩
  | cons p points ih =>
    rw [List.forall_mem_cons] at hx hy
    obtain ⟨⟨x, hpx⟩, hx⟩ := hx
    obtain ⟨⟨y, hpy⟩, hy⟩ := hy
    obtain ⟨ps, rfl⟩ := ih hx hy
    exact ⟨(x, y) :: ps, congrArg (· :: Interpolation.corners ps) (Prod.ext hpx hpy)⟩

/-- A shape whose numbers are finite has real parameters. -/
theorem exists_exact (h : ∀ y ∈ curve.numbers, isFinite y = true) :
    ∃ c : Shape ℝ, curve = c.exact := by
  simp only [isFinite_iff] at h
  cases curve
  case piecewise points =>
    obtain ⟨ps, rfl⟩ := exists_corners h
    exact ⟨piecewise ps, rfl⟩
  all_goals simp only [numbers, parameters, List.map_cons, List.map_nil, List.forall_mem_cons] at h
  case triangular =>
    obtain ⟨⟨a, rfl⟩, ⟨b, rfl⟩, ⟨c, rfl⟩, -⟩ := h
    exact ⟨triangular a b c, rfl⟩
  case trapezoidal =>
    obtain ⟨⟨a, rfl⟩, ⟨b, rfl⟩, ⟨c, rfl⟩, ⟨d, rfl⟩, -⟩ := h
    exact ⟨trapezoidal a b c d, rfl⟩
  case gaussian =>
    obtain ⟨⟨a, rfl⟩, ⟨b, rfl⟩, -⟩ := h
    exact ⟨gaussian a b, rfl⟩
  case twoSidedGaussian =>
    obtain ⟨⟨a, rfl⟩, ⟨b, rfl⟩, ⟨c, rfl⟩, ⟨d, rfl⟩, -⟩ := h
    exact ⟨twoSidedGaussian a b c d, rfl⟩
  case bell =>
    obtain ⟨⟨a, rfl⟩, ⟨b, rfl⟩, ⟨c, rfl⟩, -⟩ := h
    exact ⟨bell a b c, rfl⟩
  case sigmoid =>
    obtain ⟨⟨a, rfl⟩, ⟨b, rfl⟩, -⟩ := h
    exact ⟨sigmoid a b, rfl⟩
  case sigmoidProduct =>
    obtain ⟨⟨a, rfl⟩, ⟨b, rfl⟩, ⟨c, rfl⟩, ⟨d, rfl⟩, -⟩ := h
    exact ⟨sigmoidProduct a b c d, rfl⟩
  case sigmoidDifference =>
    obtain ⟨⟨a, rfl⟩, ⟨b, rfl⟩, ⟨c, rfl⟩, ⟨d, rfl⟩, -⟩ := h
    exact ⟨sigmoidDifference a b c d, rfl⟩
  case sShaped =>
    obtain ⟨⟨a, rfl⟩, ⟨b, rfl⟩, -⟩ := h
    exact ⟨sShaped a b, rfl⟩
  case zShaped =>
    obtain ⟨⟨a, rfl⟩, ⟨b, rfl⟩, -⟩ := h
    exact ⟨zShaped a b, rfl⟩
  case piShaped =>
    obtain ⟨⟨a, rfl⟩, ⟨b, rfl⟩, ⟨c, rfl⟩, ⟨d, rfl⟩, -⟩ := h
    exact ⟨piShaped a b c d, rfl⟩

private theorem WellFormed.width_ne_zero (hw : curve.WellFormed) {w : ℝ}
    (h : number w ∈ curve.widths) : w ≠ 0 := by
  simpa using hw.widths_ne_zero _ h

/-- A number has a degree in a sound shape, if the heights that a polygon lists are degrees. -/
theorem isDegree_degree (hw : curve.WellFormed)
    (hheights : ∀ points, curve = piecewise points → ∀ p ∈ points, IsDegree p.2) (x : ℝ) :
    IsDegree (curve.degree (number x)) := by
  obtain ⟨c, rfl⟩ := exists_exact hw.finite
  cases c with
  | triangular => exact isDegree_triangle
  | trapezoidal => exact isDegree_trapezoid
  | gaussian => exact isDegree_gauss (hw.width_ne_zero (by simp [exact, widths]))
  | twoSidedGaussian =>
    exact isDegree_gaussHalves (hw.width_ne_zero (by simp [exact, widths]))
      (hw.width_ne_zero (by simp [exact, widths]))
  | bell => exact isDegree_generalizedBell (hw.width_ne_zero (by simp [exact, widths]))
  | sigmoid => exact isDegree_logistic
  | sigmoidProduct => exact kept_isDegree.scale isDegree_logistic isDegree_logistic
  | sigmoidDifference slope₁ center₁ slope₂ center₂ =>
    obtain ⟨y, -, hy⟩ : ∃ y, _ ∧ logistic (number x) (number slope₁) (number center₁) = number y :=
      isDegree_iff.mp isDegree_logistic
    obtain ⟨z, -, hz⟩ : ∃ z, _ ∧ logistic (number x) (number slope₂) (number center₂) = number z :=
      isDegree_iff.mp isDegree_logistic
    show IsDegree (Scalar.clamp 0 1 (logistic _ _ _ - logistic _ _ _))
    rw [hy, hz, number_sub, zero_eq, one_eq, clamp_number zero_le_one, isDegree_number]
    exact ⟨le_max_left _ _, max_le zero_le_one (min_le_left _ _)⟩
  | sShaped => exact isDegree_spline
  | zShaped => exact kept_isDegree.complement isDegree_spline
  | piShaped => exact kept_isDegree.scale isDegree_spline (kept_isDegree.complement isDegree_spline)
  | piecewise points =>
    have hne : points ≠ [] := by
      rintro rfl
      exact hw.has_points rfl
    obtain ⟨y, hy, hbounds⟩ : ∃ y, (piecewise points).exact.degree (number x) = number y ∧
        0 ≤ y ∧ y ≤ 1 := by
      apply Interpolation.height_between hne
      intro q hq
      simpa using hheights _ rfl _ (List.mem_map_of_mem hq)
    rw [hy, isDegree_number]
    exact hbounds

/-- Nothing has an infinite degree in a sound shape. -/
theorem notInfinite_degree (hw : curve.WellFormed) (x : Exact) :
    NotInfinite (curve.degree x) := by
  obtain ⟨c, rfl⟩ := exists_exact hw.finite
  cases c with
  | triangular => exact notInfinite_triangle x
  | trapezoidal => exact notInfinite_trapezoid x
  | gaussian => exact notInfinite_gauss _ _ _
  | twoSidedGaussian => exact notInfinite_gaussHalves _ _ _ _ _
  | bell => exact notInfinite_generalizedBell _ _ _ _
  | sigmoid => exact notInfinite_logistic _ _ _
  | sigmoidProduct =>
    exact kept_notInfinite.scale (notInfinite_logistic _ _ _) (notInfinite_logistic _ _ _)
  | sigmoidDifference =>
    exact notInfinite_clamp (notInfinite_arithmetic (notInfinite_logistic _ _ _)
      (notInfinite_logistic _ _ _)).2.1
  | sShaped => exact notInfinite_spline x
  | zShaped => exact kept_notInfinite.complement (notInfinite_spline x)
  | piShaped =>
    exact kept_notInfinite.scale (notInfinite_spline x)
      (kept_notInfinite.complement (notInfinite_spline x))
  | piecewise points => exact Interpolation.notInfinite_height x points

/-- A number has a finite degree in a sound shape. -/
theorem isFinite_degree (hw : curve.WellFormed) (x : ℝ) :
    isFinite (curve.degree (number x)) = true := by
  rw [isFinite_iff]
  by_cases hpolygon : ∃ points, curve = .piecewise points
  · obtain ⟨points, hpoints⟩ := hpolygon
    obtain ⟨c, rfl⟩ := exists_exact hw.finite
    cases c
    case piecewise corners =>
      have hne : corners ≠ [] := by
        rintro rfl
        exact hw.has_points rfl
      exact Interpolation.exists_height hne
    all_goals cases hpoints
  · have hdegree := isDegree_degree hw (fun points hp ↦ absurd ⟨points, hp⟩ hpolygon) x
    obtain ⟨y, -, hy⟩ := isDegree_iff.mp hdegree
    exact ⟨y, hy⟩

end WellFormed

end Shape

end FuzzyInference
