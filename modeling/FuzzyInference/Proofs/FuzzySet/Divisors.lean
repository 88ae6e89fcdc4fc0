import FuzzyInference.Proofs.FuzzySet.Shape
import FuzzyInference.Proofs.Scalar.Division

/-!
# Divisors of degrees

The divisors that the degree of a point takes, branch by branch: differences of knots, widths, the
denominators of the bell and of the logistic curve, and the number two. In exact arithmetic none of
them is zero if the set is sound and the point is a number, an infinity or a label.
-/

namespace FuzzyInference

open Scalar

section Divisors

variable {α : Type} [Scalar α]

/-! ### Polygons -/

namespace Interpolation

/-- The divisor of a height on a line between two places, which a vertical one has not. -/
def lerpDivisors (x₁ x₂ : α) : List α := if x₂ == x₁ then [] else [x₂ - x₁]

/-- The divisor of the first segment that spans `x`. -/
def heightFromDivisors (x : α) : List (α × α) → List α
  | [] | [_] => []
  | (x₁, _) :: (x₂, y₂) :: rest =>
    if x₁ ≤ x ∧ x ≤ x₂ then lerpDivisors x₁ x₂ else heightFromDivisors x ((x₂, y₂) :: rest)

/-- The divisor of a height of a polygon. -/
def heightDivisors (x : α) (points : List (α × α)) : List α :=
  match points with
  | [] => []
  | (x₁, _) :: _ => if x < x₁ then [] else heightFromDivisors x points

/-- Heights on a line take no other divisor. -/
theorem lerp_dividesOnlyBy (x x₁ y₁ x₂ y₂ : α) :
    DividesOnlyBy (fun arithmetic ↦ @lerp α arithmetic x x₁ y₁ x₂ y₂) (lerpDivisors x₁ x₂) := by
  intro q hq
  show @lerp α (dividingBy q) x x₁ y₁ x₂ y₂ = lerp x x₁ y₁ x₂ y₂
  unfold lerpDivisors at hq
  unfold lerp
  split_ifs at hq ⊢
  · rfl
  · exact congrArg (y₁ + ·) (hq _ (List.mem_singleton_self _) _)

/-- Neither do heights on the segments of a polygon. -/
theorem heightFrom_dividesOnlyBy (x : α) : (points : List (α × α)) →
    DividesOnlyBy (fun arithmetic ↦ @heightFrom α arithmetic x points) (heightFromDivisors x points)
  | [] => fun _ _ ↦ rfl
  | [_] => fun _ _ ↦ rfl
  | (x₁, y₁) :: (x₂, y₂) :: rest => by
    intro q hq
    simp only [heightFromDivisors] at hq
    simp only [heightFrom]
    split_ifs at hq ⊢
    · exact lerp_dividesOnlyBy x x₁ y₁ x₂ y₂ q hq
    · exact heightFrom_dividesOnlyBy x ((x₂, y₂) :: rest) q hq

/-- Neither do heights of a polygon. -/
theorem height_dividesOnlyBy (x : α) (points : List (α × α)) :
    DividesOnlyBy (fun arithmetic ↦ @height α arithmetic x points) (heightDivisors x points) := by
  intro q hq
  cases points with
  | nil => rfl
  | cons p rest =>
    simp only [heightDivisors] at hq
    simp only [height]
    split_ifs at hq ⊢
    · rfl
    · exact heightFrom_dividesOnlyBy x (p :: rest) q hq

end Interpolation

/-! ### Shapes -/

namespace Shape

/-- The divisor of a height of a triangle. -/
def triangleDivisors (x a b c : α) : List α :=
  if x < a ∨ c < x then []
  else if x < b then (if b == a then [] else [b - a])
  else if c == b then []
  else [c - b]

/-- The divisor of a height of a trapezoid. -/
def trapezoidDivisors (x a b c d : α) : List α :=
  if x < a ∨ d < x then []
  else if x < b then (if b == a then [] else [b - a])
  else if x ≤ c then []
  else [d - c]

/-- The divisors of a height of a bell. -/
def gaussDivisors (width : α) : List α := [width, 2]

/-- The divisors of a height of the halves of two bells. -/
def gaussHalvesDivisors (x width₁ center₁ width₂ center₂ : α) : List α :=
  if x < center₁ then gaussDivisors width₁
  else if center₂ < x then gaussDivisors width₂
  else []

/-- The divisors of a height of a generalized bell. -/
def generalizedBellDivisors (x a b c : α) : List α :=
  [a, 1 + Scalar.pow (Scalar.abs ((x - c) / a)) (2 * b)]

/-- The divisor of a height of a logistic curve. -/
def logisticDivisors (x slope center : α) : List α := [1 + Scalar.exp (-slope * (x - center))]

/-- The divisors of a height of a spline. -/
def splineDivisors (x a b : α) : List α :=
  if x < a then [] else if b ≤ x then [] else [2, b - a]

/-- The divisors of the degree of a number in a shape. -/
def divisors (x : α) : Shape α → List α
  | triangular a b c => triangleDivisors x a b c
  | trapezoidal a b c d => trapezoidDivisors x a b c d
  | gaussian width _ => gaussDivisors width
  | twoSidedGaussian width₁ center₁ width₂ center₂ =>
    gaussHalvesDivisors x width₁ center₁ width₂ center₂
  | bell a b c => generalizedBellDivisors x a b c
  | sigmoid slope center => logisticDivisors x slope center
  | sigmoidProduct slope₁ center₁ slope₂ center₂
  | sigmoidDifference slope₁ center₁ slope₂ center₂ =>
    logisticDivisors x slope₁ center₁ ++ logisticDivisors x slope₂ center₂
  | sShaped a b | zShaped a b => splineDivisors x a b
  | piShaped a b c d => splineDivisors x a b ++ splineDivisors x c d
  | piecewise points => Interpolation.heightDivisors x points

/-- Heights of a triangle take no other divisor. -/
theorem triangle_dividesOnlyBy (x a b c : α) :
    DividesOnlyBy (fun arithmetic ↦ @triangle α arithmetic x a b c) (triangleDivisors x a b c) := by
  intro q hq
  show @triangle α (dividingBy q) x a b c = triangle x a b c
  unfold triangleDivisors at hq
  unfold triangle
  split_ifs at hq ⊢
  · rfl
  · rfl
  · exact hq _ (List.mem_singleton_self _) _
  · rfl
  · exact hq _ (List.mem_singleton_self _) _

/-- Neither do heights of a trapezoid. -/
theorem trapezoid_dividesOnlyBy (x a b c d : α) :
    DividesOnlyBy (fun arithmetic ↦ @trapezoid α arithmetic x a b c d)
      (trapezoidDivisors x a b c d) := by
  intro q hq
  show @trapezoid α (dividingBy q) x a b c d = trapezoid x a b c d
  unfold trapezoidDivisors at hq
  unfold trapezoid
  split_ifs at hq ⊢
  · rfl
  · rfl
  · exact hq _ (List.mem_singleton_self _) _
  · rfl
  · exact hq _ (List.mem_singleton_self _) _

/-- Neither do heights of a bell. -/
theorem gauss_dividesOnlyBy (x width center : α) :
    DividesOnlyBy (fun arithmetic ↦ @gauss α arithmetic x width center) (gaussDivisors width) := by
  intro q hq
  show Scalar.exp (q (-Scalar.square (q (x - center) width)) 2) = gauss x width center
  rw [hq width (by simp [gaussDivisors]), hq 2 (by simp [gaussDivisors])]
  rfl

/-- Neither do heights of the halves of two bells. -/
theorem gaussHalves_dividesOnlyBy (x width₁ center₁ width₂ center₂ : α) :
    DividesOnlyBy (fun arithmetic ↦ @gaussHalves α arithmetic x width₁ center₁ width₂ center₂)
      (gaussHalvesDivisors x width₁ center₁ width₂ center₂) := by
  intro q hq
  show @gaussHalves α (dividingBy q) x width₁ center₁ width₂ center₂ =
    gaussHalves x width₁ center₁ width₂ center₂
  unfold gaussHalvesDivisors at hq
  unfold gaussHalves
  split_ifs at hq ⊢
  · exact gauss_dividesOnlyBy x width₁ center₁ q hq
  · exact gauss_dividesOnlyBy x width₂ center₂ q hq
  · rfl

/-- Neither do heights of a generalized bell. -/
theorem generalizedBell_dividesOnlyBy (x a b c : α) :
    DividesOnlyBy (fun arithmetic ↦ @generalizedBell α arithmetic x a b c)
      (generalizedBellDivisors x a b c) := by
  intro q hq
  show q 1 (1 + Scalar.pow (Scalar.abs (q (x - c) a)) (2 * b)) = generalizedBell x a b c
  rw [hq a (by simp [generalizedBellDivisors]), hq _ (by simp [generalizedBellDivisors])]
  rfl

/-- Neither do heights of a logistic curve. -/
theorem logistic_dividesOnlyBy (x slope center : α) :
    DividesOnlyBy (fun arithmetic ↦ @logistic α arithmetic x slope center)
      (logisticDivisors x slope center) :=
  fun _ hq ↦ hq _ (List.mem_singleton_self _) _

/-- Neither do heights of a spline. -/
theorem spline_dividesOnlyBy (x a b : α) :
    DividesOnlyBy (fun arithmetic ↦ @spline α arithmetic x a b) (splineDivisors x a b) := by
  intro q hq
  show (if x < a then 0 else if b ≤ x then 1
    else if x ≤ q (a + b) 2 then 2 * Scalar.square (q (x - a) (b - a))
    else 1 - 2 * Scalar.square (q (x - b) (b - a))) = spline x a b
  unfold splineDivisors at hq
  unfold spline
  by_cases hlow : x < a
  · rw [if_pos hlow, if_pos hlow]
  by_cases hhigh : b ≤ x
  · rw [if_neg hlow, if_pos hhigh, if_neg hlow, if_pos hhigh]
  rw [if_neg hlow, if_neg hhigh] at hq
  rw [hq 2 (by simp), hq (b - a) (by simp), hq (b - a) (by simp)]

/-- The degree of a number in a shape takes no other divisors. -/
theorem degree_dividesOnlyBy (x : α) (curve : Shape α) :
    DividesOnlyBy (fun arithmetic ↦ @degree α arithmetic x curve) (curve.divisors x) := by
  intro q hq
  cases curve with
  | triangular a b c => exact triangle_dividesOnlyBy x a b c q hq
  | trapezoidal a b c d => exact trapezoid_dividesOnlyBy x a b c d q hq
  | gaussian width center => exact gauss_dividesOnlyBy x width center q hq
  | twoSidedGaussian width₁ center₁ width₂ center₂ =>
    exact gaussHalves_dividesOnlyBy x width₁ center₁ width₂ center₂ q hq
  | bell a b c => exact generalizedBell_dividesOnlyBy x a b c q hq
  | sigmoid slope center => exact logistic_dividesOnlyBy x slope center q hq
  | sigmoidProduct slope₁ center₁ slope₂ center₂ =>
    exact congrArg₂ (· * ·)
      (logistic_dividesOnlyBy x slope₁ center₁ q (hq.mono (List.subset_append_left _ _)))
      (logistic_dividesOnlyBy x slope₂ center₂ q (hq.mono (List.subset_append_right _ _)))
  | sigmoidDifference slope₁ center₁ slope₂ center₂ =>
    exact congrArg₂ (fun d e ↦ Scalar.clamp 0 1 (d - e))
      (logistic_dividesOnlyBy x slope₁ center₁ q (hq.mono (List.subset_append_left _ _)))
      (logistic_dividesOnlyBy x slope₂ center₂ q (hq.mono (List.subset_append_right _ _)))
  | sShaped a b => exact spline_dividesOnlyBy x a b q hq
  | zShaped a b => exact congrArg (1 - ·) (spline_dividesOnlyBy x a b q hq)
  | piShaped a b c d =>
    exact congrArg₂ (fun d e ↦ d * (1 - e))
      (spline_dividesOnlyBy x a b q (hq.mono (List.subset_append_left _ _)))
      (spline_dividesOnlyBy x c d q (hq.mono (List.subset_append_right _ _)))
  | piecewise points => exact Interpolation.height_dividesOnlyBy x points q hq

end Shape

/-! ### Sets -/

namespace FuzzySet

mutual

/-- The divisors of the degree of a point in a set. -/
def divisors (x : Point α) : FuzzySet α → List α
  | singleton _ | discrete _ | constant _ => []
  | shape curve =>
    match x with
    | .number n => curve.divisors n
    | .label _ => []
  | not set | scale set _ | implication _ _ set => divisors x set
  | or _ sets | and _ sets => divisorsAll x sets

/-- The divisors of the degrees of a point in several sets. -/
def divisorsAll (x : Point α) : List (FuzzySet α) → List α
  | [] => []
  | set :: sets => divisors x set ++ divisorsAll x sets

end

mutual

/-- The degree of a point in a set takes no other divisors, whatever the context is. -/
theorem degree_dividesOnlyBy (ctx : Context) (x : Point α) : (set : FuzzySet α) →
    DividesOnlyBy (fun arithmetic ↦ @degree α arithmetic ctx x set) (set.divisors x)
  | singleton _ | constant _ => by
    intro q _
    simp only [degree]
  | discrete _ => by
    intro q _
    simp only [degree]
    rfl
  | shape curve => by
    intro q hq
    cases x with
    | number n =>
      simp only [degree]
      exact curve.degree_dividesOnlyBy n q hq
    | label _ => simp only [degree]
  | not set => by
    intro q hq
    have hset := degree_dividesOnlyBy ctx x set q hq
    simp only [degree]
    exact congrArg (1 - ·) hset
  | scale set factor => by
    intro q hq
    have hset := degree_dividesOnlyBy ctx x set q hq
    simp only [degree]
    exact congrArg (factor * ·) hset
  | implication op truth set => by
    intro q hq
    have hset := degree_dividesOnlyBy ctx x set q hq
    simp only [degree]
    exact congrArg (op.apply truth) hset
  | or op? sets => by
    intro q hq
    have hsets := degrees_dividesOnlyBy ctx x sets q hq
    have hcombined := congrArg (op?.getD ctx.disjunction).combine hsets
    simp only [degree]
    exact hcombined
  | and op? sets => by
    intro q hq
    have hsets := degrees_dividesOnlyBy ctx x sets q hq
    have hcombined := congrArg (op?.getD ctx.conjunction).combine hsets
    simp only [degree]
    exact hcombined

/-- Neither do its degrees in several sets. -/
theorem degrees_dividesOnlyBy (ctx : Context) (x : Point α) : (sets : List (FuzzySet α)) →
    DividesOnlyBy (fun arithmetic ↦ @degrees α arithmetic ctx x sets) (divisorsAll x sets)
  | [] => by
    intro q _
    simp only [degrees]
  | set :: sets => by
    intro q hq
    have hset := degree_dividesOnlyBy ctx x set q (hq.mono (List.subset_append_left _ _))
    have hsets := degrees_dividesOnlyBy ctx x sets q (hq.mono (List.subset_append_right _ _))
    simp only [degrees]
    exact congrArg₂ List.cons hset hsets

end

end FuzzySet

end Divisors

/-! ### Divisors in exact arithmetic -/

namespace Exact

variable {a b : ℝ}

/-- Only the number zero is zero. -/
theorem number_beq_zero (ha : a ≠ 0) : (number a == 0) = false := by
  simpa using ha

/-- The difference of two numbers that are not equal is not zero. -/
theorem sub_beq_zero (h : a ≠ b) : (number b - number a == 0) = false := by
  rw [number_sub]
  exact number_beq_zero (sub_ne_zero.mpr h.symm)

/-- One more than what is not negative is not zero. -/
theorem one_add_beq_zero {d : Exact} (hd : NonnegOrNan d) : (1 + d == 0) = false := by
  rcases hd with hd | rfl
  · cases d with
    | number x =>
      have hx : 0 ≤ x := by simpa using hd
      rw [one_eq, number_add]
      exact number_beq_zero (by positivity)
    | infinite s => rfl
    | nan => cases hd
  · rfl

end Exact

open Exact

section Nonzero

variable {x : Exact} {a b c d : ℝ}

namespace Interpolation

/-- Heights on the segments of a polygon do not divide by zero. -/
theorem heightFromDivisors_ne_zero (x : Exact) : (points : List (ℝ × ℝ)) →
    ∀ y ∈ heightFromDivisors x (corners points), (y == 0) = false
  | [] | [_] => List.forall_mem_nil _
  | p :: q :: rest => by
    have hrest := heightFromDivisors_ne_zero x (q :: rest)
    simp only [corners, List.map_cons, heightFromDivisors, lerpDivisors, number_beq,
      decide_eq_true_eq] at hrest ⊢
    split_ifs with hspan hedge
    · exact List.forall_mem_nil _
    · exact List.forall_mem_singleton.mpr (sub_beq_zero (Ne.symm hedge))
    · exact hrest

/-- Neither do heights of a polygon. -/
theorem heightDivisors_ne_zero (x : Exact) (points : List (ℝ × ℝ)) :
    ∀ y ∈ heightDivisors x (corners points), (y == 0) = false := by
  cases points with
  | nil => exact List.forall_mem_nil _
  | cons p rest =>
    have hrest := heightFromDivisors_ne_zero x (p :: rest)
    simp only [corners, List.map_cons, heightDivisors] at hrest ⊢
    split_ifs
    · exact List.forall_mem_nil _
    · exact hrest

end Interpolation

namespace Shape

/-- Heights of a triangle do not divide by zero. -/
theorem triangleDivisors_ne_zero :
    ∀ y ∈ triangleDivisors x (number a) (number b) (number c), (y == 0) = false := by
  unfold triangleDivisors
  simp only [number_beq, decide_eq_true_eq]
  split_ifs with hout hrise hleft hright
  · exact List.forall_mem_nil _
  · exact List.forall_mem_nil _
  · exact List.forall_mem_singleton.mpr (sub_beq_zero (Ne.symm hleft))
  · exact List.forall_mem_nil _
  · exact List.forall_mem_singleton.mpr (sub_beq_zero (Ne.symm hright))

/-- Neither do heights of a trapezoid, at numbers. -/
theorem trapezoidDivisors_ne_zero (hx : isNan x = false) :
    ∀ y ∈ trapezoidDivisors x (number a) (number b) (number c) (number d), (y == 0) = false := by
  unfold trapezoidDivisors
  simp only [number_beq, decide_eq_true_eq]
  split_ifs with hout hrise hleft hcore
  · exact List.forall_mem_nil _
  · exact List.forall_mem_nil _
  · exact List.forall_mem_singleton.mpr (sub_beq_zero (Ne.symm hleft))
  · exact List.forall_mem_nil _
  · -- If the core ended where the trapezoid does, a number would be in the core or outside.
    refine List.forall_mem_singleton.mpr (sub_beq_zero ?_)
    rintro rfl
    rw [not_or] at hout
    exact hcore ((OrderedNumbers.le_iff_not_lt hx isNan_number).mpr hout.2)

/-- Neither do heights of a bell. -/
theorem gaussDivisors_ne_zero (ha : (number a == 0) = false) :
    ∀ y ∈ gaussDivisors (number a), (y == 0) = false :=
  List.forall_mem_cons.mpr ⟨ha, List.forall_mem_singleton.mpr (number_beq_zero two_ne_zero)⟩

/-- Neither do heights of the halves of two bells. -/
theorem gaussHalvesDivisors_ne_zero (ha : (number a == 0) = false) (hc : (number c == 0) = false) :
    ∀ y ∈ gaussHalvesDivisors x (number a) (number b) (number c) (number d),
      (y == 0) = false := by
  unfold gaussHalvesDivisors
  split_ifs
  · exact gaussDivisors_ne_zero ha
  · exact gaussDivisors_ne_zero hc
  · exact List.forall_mem_nil _

/-- Neither do heights of a generalized bell. -/
theorem generalizedBellDivisors_ne_zero (ha : (number a == 0) = false) :
    ∀ y ∈ generalizedBellDivisors x (number a) (number b) (number c), (y == 0) = false :=
  List.forall_mem_cons.mpr
    ⟨ha, List.forall_mem_singleton.mpr (one_add_beq_zero (nonnegOrNan_pow_abs _ _))⟩

/-- Neither do heights of a logistic curve. -/
theorem logisticDivisors_ne_zero :
    ∀ y ∈ logisticDivisors x (number a) (number b), (y == 0) = false :=
  List.forall_mem_singleton.mpr (one_add_beq_zero (nonnegOrNan_exp _))

/-- Neither do heights of a spline, at numbers. -/
theorem splineDivisors_ne_zero (hx : isNan x = false) :
    ∀ y ∈ splineDivisors x (number a) (number b), (y == 0) = false := by
  unfold splineDivisors
  split_ifs with hlow hhigh
  · exact List.forall_mem_nil _
  · exact List.forall_mem_nil _
  · refine List.forall_mem_cons.mpr
      ⟨number_beq_zero two_ne_zero, List.forall_mem_singleton.mpr (sub_beq_zero ?_)⟩
    -- If the spline rose at a single knot, a number would be below or behind it.
    rintro rfl
    exact hhigh ((OrderedNumbers.le_iff_not_lt isNan_number hx).mpr hlow)

/-- The degree of a number in a sound shape does not divide by zero. -/
theorem divisors_ne_zero {curve : Shape Exact} (hcurve : curve.WellFormed)
    (hx : isNan x = false) : ∀ y ∈ curve.divisors x, (y == 0) = false := by
  have hwidths := hcurve.widths_ne_zero
  obtain ⟨curve, rfl⟩ := exists_exact hcurve.finite
  cases curve with
  | triangular a b c => exact triangleDivisors_ne_zero
  | trapezoidal a b c d => exact trapezoidDivisors_ne_zero hx
  | gaussian width center => exact gaussDivisors_ne_zero (hwidths _ (List.mem_singleton_self _))
  | twoSidedGaussian width₁ center₁ width₂ center₂ =>
    exact gaussHalvesDivisors_ne_zero (hwidths _ (by simp [exact, widths]))
      (hwidths _ (by simp [exact, widths]))
  | bell a b c => exact generalizedBellDivisors_ne_zero (hwidths _ (List.mem_singleton_self _))
  | sigmoid slope center => exact logisticDivisors_ne_zero
  | sigmoidProduct slope₁ center₁ slope₂ center₂
  | sigmoidDifference slope₁ center₁ slope₂ center₂ =>
    exact List.forall_mem_append.mpr ⟨logisticDivisors_ne_zero, logisticDivisors_ne_zero⟩
  | sShaped a b | zShaped a b => exact splineDivisors_ne_zero hx
  | piShaped a b c d =>
    exact List.forall_mem_append.mpr ⟨splineDivisors_ne_zero hx, splineDivisors_ne_zero hx⟩
  | piecewise points => exact Interpolation.heightDivisors_ne_zero x points

end Shape

namespace FuzzySet

mutual

/-- The degree of a point in a sound set does not divide by zero, if that is a number or a label. -/
theorem divisors_ne_zero {x : Point Exact} (hx : x ≠ .number .nan) : {s : FuzzySet Exact} →
    s.WellFormed → ∀ y ∈ s.divisors x, (y == 0) = false
  | singleton _, _ | discrete _, _ | constant _, _ => List.forall_mem_nil _
  | shape curve, h => by
    cases x with
    | number n =>
      have hn : isNan n = false := by
        rw [← Bool.not_eq_true, isNan_iff]
        rintro rfl
        exact hx rfl
      exact Shape.divisors_ne_zero (wellFormed_shape_iff.mp h) hn
    | label name => exact List.forall_mem_nil _
  | not s, h => divisors_ne_zero (s := s) hx (wellFormed_not_iff.mp h)
  | scale s _, h => divisors_ne_zero (s := s) hx (wellFormed_scale_iff.mp h).2
  | implication _ _ s, h => divisors_ne_zero (s := s) hx (wellFormed_implication_iff.mp h).2
  | or _ sets, h => divisorsAll_ne_zero hx (wellFormed_or_iff.mp h).2
  | and _ sets, h => divisorsAll_ne_zero hx (wellFormed_and_iff.mp h).2

/-- Neither do its degrees in several sound sets. -/
theorem divisorsAll_ne_zero {x : Point Exact} (hx : x ≠ .number .nan) :
    {sets : List (FuzzySet Exact)} → (∀ set ∈ sets, set.WellFormed) →
      ∀ y ∈ divisorsAll x sets, (y == 0) = false
  | [], _ => List.forall_mem_nil _
  | _ :: _, h => by
    rw [List.forall_mem_cons] at h
    exact List.forall_mem_append.mpr ⟨divisors_ne_zero hx h.1, divisorsAll_ne_zero hx h.2⟩

end

end FuzzySet

end Nonzero

end FuzzyInference
