import FuzzyInference.Proofs.FuzzySet.Profile

/-!
# Profiles of splines

In exact arithmetic an S-shape rises from zero to one, a Z-shape is its mirror image, and a Pi-shape
is one on its whole plateau. There is one exception: where the two knots of a fall are equal, the
degree at that knot is zero, whereas a vertical rise has degree one at its knot.
-/

namespace FuzzyInference

open Exact Scalar

namespace Shape

variable {t x a b c d : ℝ}

/-! ### Two parabola halves -/

/-- Two parabola halves that rise from zero to one on the unit interval and meet midway. -/
noncomputable def halves (t : ℝ) : ℝ := if t ≤ 1 - t then 2 • t ^ 2 else 1 - 2 • (1 - t) ^ 2

/-- The halves meet at one half. -/
theorem halves_eq : halves t = if t ≤ 1 / 2 then 2 * t ^ 2 else 1 - 2 * (1 - t) ^ 2 := by
  have hmiddle : t ≤ 1 - t ↔ t ≤ 1 / 2 := by
    constructor <;> intro h <;> linarith
  simp only [halves, hmiddle, nsmul_eq_mul, Nat.cast_ofNat]

/-- The second half is the first one upside down. -/
theorem halves_mirror : halves (1 - t) = 1 - halves t := by
  rw [halves_eq, halves_eq]
  obtain hlt | rfl | hgt := lt_trichotomy t (1 / 2)
  · rw [if_neg (by linarith), if_pos hlt.le]
    ring
  · norm_num
  · rw [if_pos (by linarith), if_neg hgt.not_ge]
    ring

/-- The halves rise. -/
theorem monotoneOn_halves : MonotoneOn halves (Set.Icc 0 1) := by
  rintro t ⟨ht, -⟩ u ⟨-, hu⟩ htu
  rw [halves_eq, halves_eq]
  split_ifs with hthalf huhalf huhalf
  · gcongr
  · -- The first half stays below one half, and the second one above.
    nlinarith
  · linarith
  · have hsq : (1 - u) ^ 2 ≤ (1 - t) ^ 2 := pow_le_pow_left₀ (by linarith) (by linarith) 2
    linarith

/-! ### The rise -/

/-- The height at a real number of the spline that rises from `a` to `b`. -/
noncomputable def splineValue (x a b : ℝ) : ℝ :=
  if x < a then 0 else if b ≤ x then 1 else halves ((x - a) / (b - a))

/-- The height of a spline. -/
theorem spline_number : spline (number x) (number a) (number b) = number (splineValue x a b) := by
  unfold spline splineValue
  simp only [number_lt, number_le, number_add, number_sub, two_eq, number_div two_ne_zero]
  by_cases hxa : x < a
  · rw [if_pos hxa, if_pos hxa, zero_eq]
  by_cases hbx : b ≤ x
  · rw [if_neg hxa, if_neg hxa, if_pos hbx, if_pos hbx, one_eq]
  rw [if_neg hxa, if_neg hxa, if_neg hbx, if_neg hbx]
  rw [not_lt] at hxa
  rw [not_le] at hbx
  have hwidth : 0 < b - a := by linarith
  have hmiddle : x ≤ (a + b) / 2 ↔ (x - a) / (b - a) ≤ 1 / 2 := by
    rw [div_le_iff₀ hwidth]
    constructor <;> intro h <;> linarith
  have hrest : (x - b) / (b - a) = -(1 - (x - a) / (b - a)) := by
    field_simp
    ring
  simp only [number_div_of_pos hwidth, square_number, number_mul, one_eq, number_sub, hmiddle,
    halves_eq, hrest, neg_sq]
  split_ifs <;> rfl

/-- Before its first knot a spline has no height. -/
theorem splineValue_before (h : x < a) : splineValue x a b = 0 := if_pos h

/-- From its second knot on a spline has height one. -/
theorem splineValue_behind (hab : a ≤ b) (h : b ≤ x) : splineValue x a b = 1 := by
  rw [splineValue, if_neg (hab.trans h).not_gt, if_pos h]

/-- Between its knots a spline consists of the two parabola halves. -/
theorem splineValue_between (ha : a ≤ x) (hb : x < b) :
    splineValue x a b = halves ((x - a) / (b - a)) := by
  rw [splineValue, if_neg ha.not_gt, if_neg hb.not_ge]

private theorem part_mem (ha : a ≤ x) (hb : x < b) : (x - a) / (b - a) ∈ Set.Icc 0 1 := by
  have hwidth : 0 < b - a := by linarith
  exact ⟨div_nonneg (by linarith) hwidth.le, (div_le_one hwidth).mpr (by linarith)⟩

/-- The height of a spline is a degree. -/
theorem splineValue_mem : 0 ≤ splineValue x a b ∧ splineValue x a b ≤ 1 := by
  rw [← isDegree_number, ← spline_number]
  exact isDegree_spline

/-- A spline rises. -/
theorem monotone_splineValue (hab : a ≤ b) : Monotone fun x ↦ splineValue x a b := by
  intro x y hxy
  show splineValue x a b ≤ splineValue y a b
  by_cases hxa : x < a
  · rw [splineValue_before hxa]
    exact splineValue_mem.1
  by_cases hby : b ≤ y
  · rw [splineValue_behind hab hby]
    exact splineValue_mem.2
  rw [not_lt] at hxa
  rw [not_le] at hby
  have hxb := hxy.trans_lt hby
  have hay := hxa.trans hxy
  rw [splineValue_between hxa hxb, splineValue_between hay hby]
  apply monotoneOn_halves (part_mem hxa hxb) (part_mem hay hby)
  exact div_le_div_of_nonneg_right (by linarith) (by linarith)

/-! ### The fall -/

/-- `x` is the knot at which a fall from `a` to `b` is vertical. -/
def DropsAt (a b x : ℝ) : Prop := a = b ∧ x = a

/-- At the knot of a vertical edge a spline has height one. -/
theorem DropsAt.splineValue_eq (h : DropsAt a b x) : splineValue x a b = 1 := by
  obtain ⟨rfl, rfl⟩ := h
  exact splineValue_behind le_rfl le_rfl

/-- Up to its first knot a spline has no height, unless the edge is vertical there. -/
theorem splineValue_upTo (hab : a ≤ b) (hx : x ≤ a) (h : ¬ DropsAt a b x) :
    splineValue x a b = 0 := by
  obtain hlt | rfl := hx.lt_or_eq
  · exact splineValue_before hlt
  have hlt : x < b := lt_of_le_of_ne hab fun heq ↦ h ⟨heq, rfl⟩
  rw [splineValue_between le_rfl hlt, sub_self, zero_div, halves_eq]
  norm_num

/-- In a mirror between its knots a spline is upside down, unless the edge is vertical there. -/
theorem splineValue_mirror (hab : a ≤ b) (h : ¬ DropsAt a b x) :
    splineValue (a + b - x) a b = 1 - splineValue x a b := by
  by_cases hxa : x ≤ a
  · rw [splineValue_upTo hab hxa h, splineValue_behind hab (by linarith), sub_zero]
  rw [not_le] at hxa
  by_cases hbx : b ≤ x
  · have hmirrored : ¬ DropsAt a b (a + b - x) := by
      rintro ⟨rfl, heq⟩
      linarith
    rw [splineValue_behind hab hbx, splineValue_upTo hab (by linarith) hmirrored, sub_self]
  · rw [not_le] at hbx
    have hwidth : b - a ≠ 0 := by linarith
    have hpart : (a + b - x - a) / (b - a) = 1 - (x - a) / (b - a) := by
      field_simp
      ring
    rw [splineValue_between (by linarith) (by linarith), splineValue_between hxa.le hbx, hpart,
      halves_mirror]

/-! ### Degrees -/

/-- The degree of a number in an S-shape. -/
theorem degreeAt_sShaped : (sShaped a b).degreeAt x = number (splineValue x a b) :=
  spline_number

/-- The degree of a number in a Z-shape. -/
theorem degreeAt_zShaped : (zShaped a b).degreeAt x = number (1 - splineValue x a b) := by
  show 1 - spline (number x) (number a) (number b) = _
  rw [spline_number, one_eq, number_sub]

/-- The degree of a number in a Pi-shape. -/
theorem degreeAt_piShaped : (piShaped a b c d).degreeAt x =
    number (splineValue x a b * (1 - splineValue x c d)) := by
  show spline (number x) (number a) (number b) * (1 - spline (number x) (number c) (number d)) = _
  rw [spline_number, spline_number, one_eq, number_sub, number_mul]

/-- Up to the end of its plateau a Pi-shape is an S-shape, unless it drops there. -/
theorem degreeAt_piShaped_upTo (hcd : c ≤ d) (hx : x ≤ c) (h : ¬ DropsAt c d x) :
    (piShaped a b c d).degreeAt x = (sShaped a b).degreeAt x := by
  rw [degreeAt_piShaped, degreeAt_sShaped, splineValue_upTo hcd hx h, sub_zero, mul_one]

/-- From the start of its plateau on a Pi-shape is a Z-shape. -/
theorem degreeAt_piShaped_from (hab : a ≤ b) (hx : b ≤ x) :
    (piShaped a b c d).degreeAt x = (zShaped c d).degreeAt x := by
  rw [degreeAt_piShaped, degreeAt_zShaped, splineValue_behind hab hx, one_mul]

/-- Where it drops a Z-shape has degree zero. -/
theorem DropsAt.degreeAt_zShaped_eq (h : DropsAt a b x) : (zShaped a b).degreeAt x = 0 := by
  rw [degreeAt_zShaped, h.splineValue_eq, sub_self, zero_eq]

/-- Where it drops a Pi-shape has degree zero. -/
theorem DropsAt.degreeAt_piShaped_eq (h : DropsAt c d x) : (piShaped a b c d).degreeAt x = 0 := by
  rw [degreeAt_piShaped, h.splineValue_eq, sub_self, mul_zero, zero_eq]

private theorem zero_ne_one_exact : (0 : Exact) ≠ 1 := by
  rw [zero_eq, one_eq, Ne, number.injEq]
  exact zero_ne_one

/-- An S-shape rises. -/
theorem risesOn_sShaped (hab : a ≤ b) : RisesOn Set.univ (sShaped a b).degreeAt :=
  risesOn_of_monotoneOn (fun _ _ ↦ degreeAt_sShaped) ((monotone_splineValue hab).monotoneOn _)

/-- A Z-shape falls. -/
theorem fallsOn_zShaped (hab : a ≤ b) : FallsOn Set.univ (zShaped a b).degreeAt := by
  apply fallsOn_of_antitoneOn fun _ _ ↦ degreeAt_zShaped
  intro x _ y _ hxy
  exact sub_le_sub_left (monotone_splineValue hab hxy) 1

/-- Before its first knot the degrees in an S-shape are zero. -/
theorem degreeAt_sShaped_before (h : x < a) : (sShaped a b).degreeAt x = 0 := by
  rw [degreeAt_sShaped, splineValue_before h, zero_eq]

/-- From its second knot on the degrees in an S-shape are one. -/
theorem degreeAt_sShaped_behind (hab : a ≤ b) (h : b ≤ x) : (sShaped a b).degreeAt x = 1 := by
  rw [degreeAt_sShaped, splineValue_behind hab h, one_eq]

/-- From its second knot on the degrees in a Z-shape are zero. -/
theorem degreeAt_zShaped_behind (hab : a ≤ b) (h : b ≤ x) : (zShaped a b).degreeAt x = 0 := by
  rw [degreeAt_zShaped, splineValue_behind hab h, sub_self, zero_eq]

/-- A Z-shape is the mirror image of an S-shape but where it drops. -/
theorem degreeAt_zShaped_mirror_iff (hab : a ≤ b) :
    (zShaped a b).degreeAt x = (sShaped a b).degreeAt (a + b - x) ↔ ¬ DropsAt a b x := by
  constructor
  · intro hmirror hdrop
    have hbehind : b ≤ a + b - x := by
      obtain ⟨-, rfl⟩ := hdrop
      linarith
    rw [hdrop.degreeAt_zShaped_eq, degreeAt_sShaped_behind hab hbehind] at hmirror
    exact zero_ne_one_exact hmirror
  · intro h
    rw [degreeAt_zShaped, degreeAt_sShaped, splineValue_mirror hab h]

/-- Up to its first knot the degrees in a Z-shape are one but where it drops. -/
theorem degreeAt_zShaped_eq_one_iff (hab : a ≤ b) (hx : x ≤ a) :
    (zShaped a b).degreeAt x = 1 ↔ ¬ DropsAt a b x := by
  rw [← degreeAt_zShaped_mirror_iff hab, degreeAt_sShaped_behind hab (x := a + b - x)]
  linarith

/-- On its plateau the degrees in a Pi-shape are one but where it drops. -/
theorem degreeAt_piShaped_eq_one_iff (hab : a ≤ b) (hcd : c ≤ d) (hb : b ≤ x) (hc : x ≤ c) :
    (piShaped a b c d).degreeAt x = 1 ↔ ¬ DropsAt c d x := by
  rw [degreeAt_piShaped_from hab hb, degreeAt_zShaped_eq_one_iff hcd hc]

/-- Outside of its outer knots the degrees in a Pi-shape are zero. -/
theorem degreeAt_piShaped_outside (hcd : c ≤ d) (h : x < a ∨ d < x) :
    (piShaped a b c d).degreeAt x = 0 := by
  rw [degreeAt_piShaped]
  obtain hlt | hgt := h
  · rw [splineValue_before hlt, zero_mul, zero_eq]
  · rw [splineValue_behind hcd hgt.le, sub_self, mul_zero, zero_eq]

/-- Up to its plateau a Pi-shape rises, apart from where it drops. -/
theorem risesOn_piShaped (hab : a ≤ b) (hbc : b ≤ c) (hcd : c ≤ d) :
    RisesOn {x | x ≤ b ∧ ¬ DropsAt c d x} (piShaped a b c d).degreeAt := by
  rintro x ⟨hxb, hx⟩ y ⟨hyb, hy⟩ hxy
  rw [degreeAt_piShaped_upTo hcd (hxb.trans hbc) hx, degreeAt_piShaped_upTo hcd (hyb.trans hbc) hy]
  exact risesOn_sShaped hab x trivial y trivial hxy

/-- From the end of its plateau on a Pi-shape falls. -/
theorem fallsOn_piShaped (hab : a ≤ b) (hbc : b ≤ c) (hcd : c ≤ d) :
    FallsOn (Set.Ici c) (piShaped a b c d).degreeAt := by
  intro x hx y hy hxy
  rw [degreeAt_piShaped_from hab (hbc.trans hx), degreeAt_piShaped_from hab (hbc.trans hy)]
  exact fallsOn_zShaped hcd x trivial y trivial hxy

/-! ### Main results -/

/-- Whatever their knots are, as long as they do not decrease: an S-shape rises, is zero before its
first knot and one from its second knot on. A Z-shape is the mirror image of the S-shape, so that it
is one up to its first knot and zero behind its second one, and a Pi-shape is one on its plateau,
except at the knot of a vertical fall, where the degree is zero. A Pi-shape is zero outside of its
outer knots, rises up to its plateau apart from that knot, and falls behind it. -/
theorem splines_keep_cores (hab : a ≤ b) (hbc : b ≤ c) (hcd : c ≤ d) :
    (RisesOn Set.univ (sShaped a b).degreeAt ∧
      ∀ x, (x < a → (sShaped a b).degreeAt x = 0) ∧ (b ≤ x → (sShaped a b).degreeAt x = 1)) ∧
    (∀ x, ((zShaped a b).degreeAt x = (sShaped a b).degreeAt (a + b - x) ↔ ¬ DropsAt a b x) ∧
      (x ≤ a → ((zShaped a b).degreeAt x = 1 ↔ ¬ DropsAt a b x)) ∧
      (b < x ∨ DropsAt a b x → (zShaped a b).degreeAt x = 0)) ∧
    (∀ x, (b ≤ x → x ≤ c → ((piShaped a b c d).degreeAt x = 1 ↔ ¬ DropsAt c d x)) ∧
      (x < a ∨ d < x ∨ DropsAt c d x → (piShaped a b c d).degreeAt x = 0)) ∧
    RisesOn {x | x ≤ b ∧ ¬ DropsAt c d x} (piShaped a b c d).degreeAt ∧
    FallsOn (Set.Ici c) (piShaped a b c d).degreeAt := by
  refine ⟨⟨risesOn_sShaped hab, fun x ↦
    ⟨degreeAt_sShaped_before, degreeAt_sShaped_behind hab⟩⟩, fun x ↦
    ⟨degreeAt_zShaped_mirror_iff hab, degreeAt_zShaped_eq_one_iff hab, ?_⟩, fun x ↦
    ⟨degreeAt_piShaped_eq_one_iff hab hcd, ?_⟩,
    risesOn_piShaped hab hbc hcd, fallsOn_piShaped hab hbc hcd⟩
  · rintro (hbehind | hdrop)
    · exact degreeAt_zShaped_behind hab hbehind.le
    · exact hdrop.degreeAt_zShaped_eq
  · rintro (hbefore | hbehind | hdrop)
    · exact degreeAt_piShaped_outside hcd (.inl hbefore)
    · exact degreeAt_piShaped_outside hcd (.inr hbehind)
    · exact hdrop.degreeAt_piShaped_eq

/-- A Pi-shape that drops at the end of its plateau, with the S-shape and the Z-shape of its first
two knots. -/
theorem splines_keep_cores_with_drop :
    (0 : ℝ) ≤ 1 ∧ (1 : ℝ) ≤ 2 ∧ (2 : ℝ) ≤ 2 ∧
      (zShaped 0 1).degreeAt 0 = 1 ∧ (piShaped 0 1 2 2).degreeAt 1 = 1 ∧
      (piShaped 0 1 2 2).degreeAt 2 = 0 := by
  obtain ⟨-, hz, hpi, -⟩ := splines_keep_cores (a := 0) (b := 1) (c := 2) (d := 2)
    zero_le_one one_le_two le_rfl
  have hcore : ¬ DropsAt (2 : ℝ) 2 1 := by
    rintro ⟨-, h⟩
    norm_num at h
  refine ⟨zero_le_one, one_le_two, le_rfl, ((hz 0).2.1 le_rfl).mpr fun h ↦ ?_,
    ((hpi 1).1 le_rfl one_le_two).mpr hcore, (hpi 2).2 (.inr (.inr ⟨rfl, rfl⟩))⟩
  exact zero_ne_one h.1

private theorem requireOrdered_number {shape : String} (knots : List ℝ) :
    SetFault.requireOrdered shape (knots.map number) = .ok () ↔ knots.IsChain (· ≤ ·) := by
  rw [SetFault.requireOrdered_eq_ok_iff_isChain, List.forall_mem_map, List.isChain_map]
  simp [isFinite_iff]

/-- Two sound shapes with a vertical fall have degree zero at the knot where they drop: a Z-shape
that is no mirror image of the S-shape there, and a Pi-shape that is not one on all of its
plateau. -/
theorem splines_drop_at_knot :
    (zShaped 1 1).exact.validate = .ok () ∧ (zShaped 1 1).degreeAt 1 = 0 ∧
      (¬ ∀ x, (zShaped 1 1).degreeAt x = (sShaped 1 1).degreeAt (1 + 1 - x)) ∧
      (piShaped 0 1 2 2).exact.validate = .ok () ∧ (piShaped 0 1 2 2).degreeAt 2 = 0 ∧
      ¬ ∀ x, 1 ≤ x → x ≤ 2 → (piShaped 0 1 2 2).degreeAt x = 1 := by
  have hz : (zShaped 1 1).degreeAt 1 = 0 := DropsAt.degreeAt_zShaped_eq ⟨rfl, rfl⟩
  have hpi : (piShaped 0 1 2 2).degreeAt 2 = 0 := DropsAt.degreeAt_piShaped_eq ⟨rfl, rfl⟩
  refine ⟨?_, hz, fun hmirror ↦ ?_, ?_, hpi, fun hplateau ↦ ?_⟩
  · exact (requireOrdered_number [1, 1]).mpr (by simp)
  · have hbehind : (1 : ℝ) ≤ 1 + 1 - 1 := by norm_num
    have hone := hmirror 1
    rw [hz, degreeAt_sShaped_behind le_rfl hbehind] at hone
    exact zero_ne_one_exact hone
  · exact (requireOrdered_number [0, 1, 2, 2]).mpr (by norm_num)
  · have hone := hplateau 2 one_le_two le_rfl
    rw [hpi] at hone
    exact zero_ne_one_exact hone

end Shape

end FuzzyInference
