import FuzzyInference.Proofs.FuzzySet.Shape

/-!
# Profiles of polygons

In exact arithmetic a triangle and a trapezoid are polygons: their degrees are the heights of the
polygon through their corners, whichever of the corners stand one above the other. So they have
degree zero outside, rise to a core of degree one, and fall behind it.
-/

namespace FuzzyInference

open Exact Scalar

/-! ### Rising and falling -/

/-- The degree of a real number in a shape with real parameters. -/
noncomputable def Shape.degreeAt (curve : Shape ℝ) (x : ℝ) : Exact := curve.exact.degree (number x)

/-- Degrees that do not decrease from one point of a set to a greater one. -/
def RisesOn (s : Set ℝ) (f : ℝ → Exact) : Prop := ∀ x ∈ s, ∀ y ∈ s, x ≤ y → f x ≤ f y

/-- Degrees that do not increase from one point of a set to a greater one. -/
def FallsOn (s : Set ℝ) (f : ℝ → Exact) : Prop := ∀ x ∈ s, ∀ y ∈ s, x ≤ y → f y ≤ f x

/-- Degrees that are zero outside `[a, d]` and one on the core `[b, c]`, rise up to the core and
fall from there on. -/
structure Peaks (a b c d : ℝ) (f : ℝ → Exact) : Prop where
  /-- Outside, the degrees are zero. -/
  outside : ∀ x, x < a ∨ d < x → f x = 0
  /-- On the core, the degrees are one. -/
  core : ∀ x, b ≤ x → x ≤ c → f x = 1
  /-- Up to the core, the degrees rise. -/
  rises : RisesOn (Set.Iic b) f
  /-- From the end of the core on, the degrees fall. -/
  falls : FallsOn (Set.Ici c) f

section

variable {s : Set ℝ} {f : ℝ → Exact} {g : ℝ → ℝ}

/-- Degrees rise as the numbers they are do. -/
theorem risesOn_of_monotoneOn (hf : ∀ x ∈ s, f x = number (g x)) (hg : MonotoneOn g s) :
    RisesOn s f := by
  intro x hx y hy hxy
  rw [hf x hx, hf y hy, number_le]
  exact hg hx hy hxy

/-- Degrees fall as the numbers they are do. -/
theorem fallsOn_of_antitoneOn (hf : ∀ x ∈ s, f x = number (g x)) (hg : AntitoneOn g s) :
    FallsOn s f := by
  intro x hx y hy hxy
  rw [hf x hx, hf y hy, number_le]
  exact hg hx hy hxy

end

namespace Shape

variable {x a b c d : ℝ}

/-! ### Trapezoids -/

/-- The height at a real number of the trapezoid with real corners. -/
noncomputable def trapezoidValue (x a b c d : ℝ) : ℝ :=
  if x < a ∨ d < x then 0
  else if x < b then (x - a) / (b - a)
  else if x ≤ c then 1
  else (d - x) / (d - c)

/-- The degree of a number in a trapezoid. -/
theorem degreeAt_trapezoidal :
    (trapezoidal a b c d).degreeAt x = number (trapezoidValue x a b c d) := by
  show trapezoid (number x) (number a) (number b) (number c) (number d) = _
  unfold trapezoid trapezoidValue
  simp only [number_lt, number_le, number_beq, decide_eq_true_eq]
  split_ifs with hout hrise hba hcore
  · exact zero_eq
  · exact absurd (hba ▸ hrise) fun h ↦ hout (.inl h)
  · rw [number_sub, number_sub, number_div (sub_ne_zero.mpr hba)]
  · exact one_eq
  · rw [not_or, not_lt, not_lt] at hout
    rw [not_le] at hcore
    rw [number_sub, number_sub, number_div_of_pos (sub_pos.mpr (hcore.trans_le hout.2))]

/-- The height of a trapezoid is a degree. -/
theorem trapezoidValue_mem : 0 ≤ trapezoidValue x a b c d ∧ trapezoidValue x a b c d ≤ 1 := by
  rw [← isDegree_number, ← degreeAt_trapezoidal]
  exact isDegree_trapezoid

/-- Outside of its outer corners a trapezoid has no height. -/
theorem trapezoidValue_outside (h : x < a ∨ d < x) : trapezoidValue x a b c d = 0 :=
  if_pos h

/-- Before its core a trapezoid rises along a line. -/
theorem trapezoidValue_rise (hbd : b ≤ d) (ha : a ≤ x) (hb : x < b) :
    trapezoidValue x a b c d = (x - a) / (b - a) := by
  have hin : ¬ (x < a ∨ d < x) := by
    rw [not_or, not_lt, not_lt]
    exact ⟨ha, hb.le.trans hbd⟩
  rw [trapezoidValue, if_neg hin, if_pos hb]

/-- On its core a trapezoid has height one. -/
theorem trapezoidValue_core (hab : a ≤ b) (hcd : c ≤ d) (hb : b ≤ x) (hc : x ≤ c) :
    trapezoidValue x a b c d = 1 := by
  have hin : ¬ (x < a ∨ d < x) := by
    rw [not_or, not_lt, not_lt]
    exact ⟨hab.trans hb, hc.trans hcd⟩
  rw [trapezoidValue, if_neg hin, if_neg (not_lt.mpr hb), if_pos hc]

/-- A trapezoid looks in a mirror like the one with the opposite corners. -/
theorem trapezoidValue_mirror (hbc : b ≤ c) :
    trapezoidValue (-x) (-d) (-c) (-b) (-a) = trapezoidValue x a b c d := by
  by_cases hout : x < a ∨ d < x
  · rw [trapezoidValue_outside hout,
      trapezoidValue_outside (hout.symm.imp neg_lt_neg neg_lt_neg)]
  have hin : ¬ (-x < -d ∨ -a < -x) := by rwa [neg_lt_neg_iff, neg_lt_neg_iff, or_comm]
  rw [trapezoidValue, trapezoidValue, if_neg hout, if_neg hin]
  simp only [neg_lt_neg_iff, neg_le_neg_iff, neg_sub_neg]
  by_cases hb : x < b
  · rw [if_pos hb, if_neg (hb.trans_le hbc).not_gt, if_neg hb.not_ge]
  · rw [if_neg hb, if_pos (not_lt.mp hb)]
    by_cases hc : c < x
    · rw [if_pos hc, if_neg hc.not_ge]
    · rw [if_neg hc, if_pos (not_lt.mp hc)]

/-- Behind its core a trapezoid falls along a line. -/
theorem trapezoidValue_fall (hac : a ≤ c) (hbc : b ≤ c) (hc : c < x) (hd : x ≤ d) :
    trapezoidValue x a b c d = (d - x) / (d - c) := by
  rw [← trapezoidValue_mirror hbc,
    trapezoidValue_rise (neg_le_neg hac) (neg_le_neg hd) (neg_lt_neg hc), neg_sub_neg, neg_sub_neg]

/-- Up to its core a trapezoid rises. -/
theorem monotoneOn_trapezoidValue (hab : a ≤ b) (hbc : b ≤ c) (hcd : c ≤ d) :
    MonotoneOn (fun x ↦ trapezoidValue x a b c d) (Set.Iic b) := by
  intro x hx y hy hxy
  show trapezoidValue x a b c d ≤ trapezoidValue y a b c d
  by_cases hxa : x < a
  · rw [trapezoidValue_outside (.inl hxa)]
    exact trapezoidValue_mem.1
  rw [not_lt] at hxa
  by_cases hyb : y < b
  · have hbd := hbc.trans hcd
    rw [trapezoidValue_rise hbd hxa (hxy.trans_lt hyb), trapezoidValue_rise hbd (hxa.trans hxy) hyb]
    exact div_le_div_of_nonneg_right (by linarith) (by linarith)
  · rw [not_lt] at hyb
    rw [trapezoidValue_core hab hcd hyb (hy.trans hbc)]
    exact trapezoidValue_mem.2

/-- From the end of its core on a trapezoid falls. -/
theorem antitoneOn_trapezoidValue (hab : a ≤ b) (hbc : b ≤ c) (hcd : c ≤ d) :
    AntitoneOn (fun x ↦ trapezoidValue x a b c d) (Set.Ici c) := by
  intro x hx y hy hxy
  show trapezoidValue y a b c d ≤ trapezoidValue x a b c d
  rw [← trapezoidValue_mirror hbc, ← trapezoidValue_mirror (x := x) hbc]
  exact monotoneOn_trapezoidValue (neg_le_neg hcd) (neg_le_neg hbc) (neg_le_neg hab)
    (Set.mem_Iic.mpr (neg_le_neg hy)) (Set.mem_Iic.mpr (neg_le_neg hx)) (neg_le_neg hxy)

/-- The degrees in a trapezoid peak on its core. -/
theorem peaks_trapezoidal (hab : a ≤ b) (hbc : b ≤ c) (hcd : c ≤ d) :
    Peaks a b c d (trapezoidal a b c d).degreeAt where
  outside x hx := by rw [degreeAt_trapezoidal, trapezoidValue_outside hx, zero_eq]
  core x hb hc := by rw [degreeAt_trapezoidal, trapezoidValue_core hab hcd hb hc, one_eq]
  rises := risesOn_of_monotoneOn (fun _ _ ↦ degreeAt_trapezoidal)
    (monotoneOn_trapezoidValue hab hbc hcd)
  falls := fallsOn_of_antitoneOn (fun _ _ ↦ degreeAt_trapezoidal)
    (antitoneOn_trapezoidValue hab hbc hcd)

/-! ### Polygons -/

open Interpolation

/-- A trapezoid is the polygon through its corners. -/
theorem degreeAt_trapezoidal_eq_piecewise (hab : a ≤ b) (hbc : b ≤ c) (hcd : c ≤ d) :
    (trapezoidal a b c d).degreeAt = (piecewise [(a, 0), (b, 1), (c, 1), (d, 0)]).degreeAt := by
  funext x
  rw [degreeAt_trapezoidal]
  show _ = height (number x) (corners [(a, 0), (b, 1), (c, 1), (d, 0)])
  by_cases hxa : x < a
  · rw [height_before hxa, trapezoidValue_outside (.inl hxa)]
  rw [not_lt] at hxa
  rw [height_eq_heightFrom hxa]
  by_cases hxb : x ≤ b
  · rw [heightFrom_within hxa hxb, number.injEq]
    obtain hlt | rfl := hxb.lt_or_eq
    · rw [trapezoidValue_rise (hbc.trans hcd) hxa hlt, if_neg (hxa.trans_lt hlt).ne']
      ring
    · rw [trapezoidValue_core hab hcd le_rfl hbc]
      split_ifs with hedge
      · rfl
      · have hrun : x - a ≠ 0 := sub_ne_zero.mpr hedge
        field_simp
        ring
  rw [not_le] at hxb
  rw [heightFrom_behind hxb]
  by_cases hxc : x ≤ c
  · rw [heightFrom_within hxb.le hxc, trapezoidValue_core hab hcd hxb.le hxc]
    simp
  rw [not_le] at hxc
  rw [heightFrom_behind hxc]
  by_cases hxd : x ≤ d
  · have hrun : d - c ≠ 0 := (sub_pos.mpr (hxc.trans_le hxd)).ne'
    rw [heightFrom_within hxc.le hxd, if_neg (sub_ne_zero.mp hrun),
      trapezoidValue_fall (hab.trans hbc) hbc hxc hxd, number.injEq]
    field_simp
    ring
  · rw [not_le] at hxd
    rw [heightFrom_behind hxd, heightFrom_last hxd.le, trapezoidValue_outside (.inr hxd)]

/-- Triangles have the degrees of trapezoids with a single point for a core. -/
theorem degreeAt_triangular_eq_trapezoidal :
    (triangular a b c).degreeAt = (trapezoidal a b b c).degreeAt := by
  funext x
  exact triangle_eq_trapezoid

/-- A triangle is the polygon through its corners. -/
theorem degreeAt_triangular_eq_piecewise (hab : a ≤ b) (hbc : b ≤ c) :
    (triangular a b c).degreeAt = (piecewise [(a, 0), (b, 1), (c, 0)]).degreeAt := by
  rw [degreeAt_triangular_eq_trapezoidal, degreeAt_trapezoidal_eq_piecewise hab le_rfl hbc]
  funext x
  exact height_repeated

/-! ### Main results -/

/-- Triangles and trapezoids with knots that do not decrease have the same degrees as the polygons
through their corners, at every number. They have degree zero outside of the outer knots and one on
the core, rise up to the core and fall behind it, even if edges are vertical. -/
theorem polygons_agree (hab : a ≤ b) (hbc : b ≤ c) :
    ((triangular a b c).degreeAt = (piecewise [(a, 0), (b, 1), (c, 0)]).degreeAt ∧
      Peaks a b b c (triangular a b c).degreeAt) ∧
    ∀ d, c ≤ d →
      (trapezoidal a b c d).degreeAt = (piecewise [(a, 0), (b, 1), (c, 1), (d, 0)]).degreeAt ∧
        Peaks a b c d (trapezoidal a b c d).degreeAt := by
  refine ⟨⟨degreeAt_triangular_eq_piecewise hab hbc, ?_⟩, fun d hcd ↦
    ⟨degreeAt_trapezoidal_eq_piecewise hab hbc hcd, peaks_trapezoidal hab hbc hcd⟩⟩
  rw [degreeAt_triangular_eq_trapezoidal]
  exact peaks_trapezoidal hab le_rfl hbc

/-- A triangle with a vertical rise, and a trapezoid that is a rectangle. -/
theorem polygons_agree_vertical :
    (0 : ℝ) ≤ 0 ∧ (0 : ℝ) ≤ 1 ∧
      ((triangular 0 0 1).degreeAt = (piecewise [(0, 0), (0, 1), (1, 0)]).degreeAt ∧
        Peaks 0 0 0 1 (triangular 0 0 1).degreeAt) ∧
      (trapezoidal 0 0 1 1).degreeAt = (piecewise [(0, 0), (0, 1), (1, 1), (1, 0)]).degreeAt ∧
        Peaks 0 0 1 1 (trapezoidal 0 0 1 1).degreeAt := by
  obtain ⟨htriangle, htrapezoid⟩ := polygons_agree (a := 0) (b := 0) (c := 1) le_rfl zero_le_one
  exact ⟨le_rfl, zero_le_one, htriangle, htrapezoid 1 le_rfl⟩

end Shape

end FuzzyInference
