import FuzzyInference.Proofs.Interpolation

/-!
# Heights at knots and between them

The corners of a polygon, in order, are the knots of its height. Before the first knot and behind
the last one the polygon is as high as there, at a knot as one of the corners listed there, and
between two neighbouring knots as the line through them. The search for the first segment that spans
a point therefore never runs past the last corner without a result.
-/

namespace FuzzyInference.Interpolation

open Exact

variable {x : ℝ} {p q : ℝ × ℝ} {before points : List (ℝ × ℝ)}

/-! ### Segments that are passed over -/

/-- Corners before `x` have no part in the height at `x`, except for the last one of them. -/
theorem heightFrom_append (hbefore : ∀ r ∈ before, r.1 < x) (hp : p.1 < x) :
    heightFrom (number x) (corners (before ++ p :: points)) =
      heightFrom (number x) (corners (p :: points)) := by
  induction before with
  | nil => rfl
  | cons r before ih =>
    rw [List.forall_mem_cons] at hbefore
    rw [← ih hbefore.2]
    cases before with
    | nil => exact heightFrom_behind hp
    | cons s before => exact heightFrom_behind (hbefore.2 s List.mem_cons_self)

/-- The height is searched for from the last corner before `x` on. -/
theorem height_append (hbefore : ∀ r ∈ before, r.1 < x) (hp : p.1 < x) :
    height (number x) (corners (before ++ p :: points)) =
      heightFrom (number x) (corners (p :: points)) := by
  rw [← heightFrom_append hbefore hp]
  cases before with
  | nil => exact height_eq_heightFrom hp.le
  | cons r before => exact height_eq_heightFrom (hbefore r List.mem_cons_self).le

/-- Behind its last corner a polygon is as high as there. -/
theorem height_behind (hsorted : points.Pairwise fun p q ↦ p.1 ≤ q.1)
    (hlast : p ∈ points.getLast?) (hx : p.1 < x) :
    height (number x) (corners points) = number p.2 := by
  obtain ⟨before, rfl⟩ := List.getLast?_eq_some_iff.mp hlast
  obtain ⟨-, -, hle⟩ := List.pairwise_append.mp hsorted
  have hbefore : ∀ r ∈ before, r.1 < x := fun r hr ↦
    (hle r hr p (List.mem_singleton_self p)).trans_lt hx
  rw [height_append hbefore hx, heightFrom_last hx.le]

/-- Between two neighbouring corners a polygon is as high as the line through them. -/
theorem height_on_line (hsorted : points.Pairwise fun p q ↦ p.1 ≤ q.1)
    (hneighbours : [p, q] <:+: points) (hp : p.1 < x) (hq : x < q.1) :
    height (number x) (corners points) =
      number (p.2 + (q.2 - p.2) / (q.1 - p.1) * (x - p.1)) := by
  obtain ⟨before, behind, rfl⟩ := hneighbours
  rw [List.append_assoc] at hsorted ⊢
  obtain ⟨-, -, hle⟩ := List.pairwise_append.mp hsorted
  have hbefore : ∀ r ∈ before, r.1 < x := fun r hr ↦ (hle r hr p List.mem_cons_self).trans_lt hp
  have hlt : p.1 < q.1 := hp.trans hq
  calc height (number x) (corners (before ++ p :: q :: behind))
      = heightFrom (number x) (corners (p :: q :: behind)) := height_append hbefore hp
    _ = number (p.2 + (x - p.1) * (q.2 - p.2) / (q.1 - p.1)) := by
      rw [heightFrom_within hp.le hq.le, if_neg hlt.ne']
    _ = number (p.2 + (q.2 - p.2) / (q.1 - p.1) * (x - p.1)) := by
      rw [mul_comm, mul_div_right_comm]

/-! ### Knots -/

/-- At an end of the first segment that spans it the height is that of the corner there, and on a
vertical segment that of its second corner. -/
theorem heightFrom_end (points : List (ℝ × ℝ)) (hp : p.1 ≤ x) (hq : x ≤ q.1)
    (hends : x = p.1 ∨ x = q.1) :
    ∃ y, heightFrom (number x) (corners (p :: q :: points)) = number y ∧
      ((x, y) = p ∨ (x, y) = q) := by
  refine ⟨_, heightFrom_within hp hq, ?_⟩
  split_ifs with hvertical
  · exact .inr (Prod.ext (le_antisymm hq (hvertical.le.trans hp)) rfl)
  · obtain rfl | rfl := hends
    · rw [sub_self, zero_mul, zero_div, add_zero]
      exact .inl rfl
    · rw [mul_div_cancel_left₀ _ (sub_ne_zero.mpr hvertical), add_sub_cancel]
      exact .inr rfl

/-- Of corners in order the first one is behind no knot. -/
theorem first_le_knot (hsorted : (p :: points).Pairwise fun p q ↦ p.1 ≤ q.1)
    (hknot : x ∈ (p :: points).map Prod.fst) : p.1 ≤ x := by
  rw [List.map_cons, List.mem_cons] at hknot
  obtain rfl | hmem := hknot
  · exact le_rfl
  · obtain ⟨r, hr, rfl⟩ := List.mem_map.mp hmem
    exact (List.pairwise_cons.mp hsorted).1 r hr

/-- At a knot the first segment that spans it yields the height of a corner listed there. -/
theorem heightFrom_knot (hsorted : (p :: points).Pairwise fun p q ↦ p.1 ≤ q.1)
    (hknot : x ∈ (p :: points).map Prod.fst) :
    ∃ y, heightFrom (number x) (corners (p :: points)) = number y ∧ (x, y) ∈ p :: points := by
  have hp : p.1 ≤ x := first_le_knot hsorted hknot
  induction points generalizing p with
  | nil =>
    obtain rfl : x = p.1 := by simpa using hknot
    exact ⟨p.2, heightFrom_last hp, List.mem_cons_self⟩
  | cons q points ih =>
    obtain ⟨hfirst, hsorted⟩ := List.pairwise_cons.mp hsorted
    rw [List.map_cons, List.mem_cons] at hknot
    by_cases hq : x ≤ q.1
    · -- A knot that is not behind `q` is that of `p` or of `q`.
      have hends : x = p.1 ∨ x = q.1 :=
        hknot.imp_right fun hmem ↦ le_antisymm hq (first_le_knot hsorted hmem)
      obtain ⟨y, hy, heq | heq⟩ := heightFrom_end points hp hq hends
      · exact ⟨y, hy, heq ▸ List.mem_cons_self⟩
      · exact ⟨y, hy, heq ▸ List.mem_cons_of_mem _ List.mem_cons_self⟩
    · rw [not_le] at hq
      have hknot : x ∈ (q :: points).map Prod.fst := by
        refine hknot.resolve_left fun heq ↦ ?_
        exact (heq ▸ hq).not_ge (hfirst q List.mem_cons_self)
      obtain ⟨y, hy, hmem⟩ := ih hsorted hknot hq.le
      exact ⟨y, (heightFrom_behind hq).trans hy, List.mem_cons_of_mem _ hmem⟩

/-- At a knot a polygon is as high as one of the corners listed there. -/
theorem height_knot (hsorted : points.Pairwise fun p q ↦ p.1 ≤ q.1)
    (hknot : x ∈ points.map Prod.fst) :
    ∃ y, height (number x) (corners points) = number y ∧ (x, y) ∈ points := by
  cases points with
  | nil => cases hknot
  | cons p points =>
    rw [height_eq_heightFrom (first_le_knot hsorted hknot)]
    exact heightFrom_knot hsorted hknot

/-- Of a knot that is listed once there is one corner. -/
theorem eq_of_countP_eq_one (hcount : points.countP (fun r ↦ r.1 = x) = 1) (hp : p ∈ points)
    (hq : q ∈ points) (hpx : p.1 = x) (hqx : q.1 = x) : p = q := by
  rw [List.countP_eq_length_filter] at hcount
  obtain ⟨r, hr⟩ := List.length_eq_one_iff.mp hcount
  have hmem (s : ℝ × ℝ) (hs : s ∈ points) (hsx : s.1 = x) : s = r := by
    rw [← List.mem_singleton, ← hr]
    exact List.mem_filter.mpr ⟨hs, decide_eq_true hsx⟩
  rw [hmem p hp hpx, hmem q hq hqx]

/-- What is within the outer knots and is no knot lies between two neighbouring ones. -/
theorem exists_neighbours (hne : points ≠ []) (hfirst : ∀ p ∈ points.head?, p.1 ≤ x)
    (hlast : ∀ p ∈ points.getLast?, x ≤ p.1) (hknot : x ∉ points.map Prod.fst) :
    ∃ p q, [p, q] <:+: points ∧ p.1 < x ∧ x < q.1 := by
  induction points with
  | nil => exact absurd rfl hne
  | cons p points ih =>
    rw [List.map_cons, List.mem_cons, not_or] at hknot
    have hp : p.1 < x := lt_of_le_of_ne (hfirst p rfl) (Ne.symm hknot.1)
    cases points with
    | nil => exact absurd (hlast p rfl) hp.not_ge
    | cons q points =>
      by_cases hq : x < q.1
      · exact ⟨p, q, ⟨[], points, rfl⟩, hp, hq⟩
      · have hhead : ∀ r ∈ (q :: points).head?, r.1 ≤ x := by
          rintro r ⟨⟩
          exact not_lt.mp hq
        obtain ⟨r, s, hinfix, hrs⟩ := ih (List.cons_ne_nil _ _) hhead hlast hknot.2
        exact ⟨r, s, hinfix.trans (List.suffix_cons _ _).isInfix, hrs⟩

/-! ### Beyond all knots -/

/-- Below all numbers a polygon is as high as at its first corner. -/
theorem height_neg_infinity : height (infinite true) (corners (p :: points)) = number p.2 :=
  if_pos rfl

/-- No segment spans what is above all numbers. -/
theorem heightFrom_infinity :
    heightFrom (infinite false) (corners (before ++ [p])) = number p.2 := by
  induction before with
  | nil => exact if_pos rfl
  | cons r before ih =>
    rw [← ih]
    cases before with
    | nil => exact if_neg fun h ↦ Bool.false_ne_true h.2
    | cons s before => exact if_neg fun h ↦ Bool.false_ne_true h.2

/-- Above all numbers a polygon is as high as at its last corner. -/
theorem height_infinity : height (infinite false) (corners (before ++ [p])) = number p.2 := by
  have hsearch : height (infinite false) (corners (before ++ [p])) =
      heightFrom (infinite false) (corners (before ++ [p])) := by
    cases before with
    | nil => exact if_neg Bool.false_ne_true
    | cons r before => exact if_neg Bool.false_ne_true
  rw [hsearch, heightFrom_infinity]

/-! ### Main result -/

/-- Some corner is lowest and some corner is highest. -/
theorem exists_extremes (hne : points ≠ []) :
    ∃ low high, IsLeast {d | d ∈ points.map Prod.snd} low ∧
      IsGreatest {d | d ∈ points.map Prod.snd} high := by
  have hheights : (points.map Prod.snd).toFinset.Nonempty := by
    rw [List.toFinset_nonempty_iff]
    exact List.map_eq_nil_iff.not.mpr hne
  rw [← List.coe_toFinset]
  exact ⟨_, _, Finset.isLeast_min' _ hheights, Finset.isGreatest_max' _ hheights⟩

/-- What a height `y` at `x` has to be for a polygon with the given corners. -/
structure Interpolates (points : List (ℝ × ℝ)) (x y : ℝ) : Prop where
  /-- Before the first knot it is the height there. -/
  before : ∀ p ∈ points.head?, x < p.1 → y = p.2
  /-- Behind the last knot it is the height there. -/
  behind : ∀ p ∈ points.getLast?, p.1 < x → y = p.2
  /-- At a knot that is listed once it is the height listed there. -/
  single : points.countP (fun r ↦ r.1 = x) = 1 → ∀ p ∈ points, p.1 = x → y = p.2
  /-- At a knot it is one of the heights listed there. -/
  knot : x ∈ points.map Prod.fst → (x, y) ∈ points
  /-- Elsewhere it is that of the line through the two neighbouring corners. -/
  line : (∀ p ∈ points.head?, p.1 ≤ x) → (∀ p ∈ points.getLast?, x ≤ p.1) →
    x ∉ points.map Prod.fst →
      ∃ p q, [p, q] <:+: points ∧ p.1 < x ∧ x < q.1 ∧
        y = p.2 + (q.2 - p.2) / (q.1 - p.1) * (x - p.1)
  /-- It lies between the least and the greatest height of a corner. -/
  between : ∃ low high, IsLeast {d | d ∈ points.map Prod.snd} low ∧
    IsGreatest {d | d ∈ points.map Prod.snd} high ∧ low ≤ y ∧ y ≤ high

/-- A polygon with corners in order has a height above every number, which interpolates between
its knots, however often they are repeated. Above the infinities it is as high as at the outer
knots. -/
theorem height_interpolates (hne : points ≠ [])
    (hsorted : points.Pairwise fun p q ↦ p.1 ≤ q.1) :
    (∀ x, ∃ y, height (number x) (corners points) = number y ∧ Interpolates points x y) ∧
      (∀ p ∈ points.head?, height (infinite true) (corners points) = number p.2) ∧
      ∀ p ∈ points.getLast?, height (infinite false) (corners points) = number p.2 := by
  refine ⟨fun x ↦ ?_, fun p hp ↦ ?_, fun p hp ↦ ?_⟩
  · obtain ⟨low, high, hleast, hgreatest⟩ := exists_extremes hne
    obtain ⟨y, hy, hbounds⟩ := height_between (x := x) hne fun q hq ↦
      ⟨hleast.2 (List.mem_map_of_mem hq), hgreatest.2 (List.mem_map_of_mem hq)⟩
    have hat (hknot : x ∈ points.map Prod.fst) : (x, y) ∈ points := by
      obtain ⟨z, hz, hmem⟩ := height_knot hsorted hknot
      rwa [number.inj (hy.symm.trans hz)]
    refine ⟨y, hy, ⟨fun p hp hx ↦ ?_, fun p hp hx ↦ ?_, fun hcount p hp hpx ↦ ?_, hat,
      fun hfirst hlast hknot ↦ ?_, ⟨low, high, hleast, hgreatest, hbounds⟩⟩⟩
    · obtain ⟨points, rfl⟩ := List.head?_eq_some_iff.mp hp
      exact number.inj (hy.symm.trans (height_before hx))
    · exact number.inj (hy.symm.trans (height_behind hsorted hp hx))
    · have hknot : x ∈ points.map Prod.fst := hpx ▸ List.mem_map_of_mem hp
      exact congrArg Prod.snd (eq_of_countP_eq_one hcount (hat hknot) hp rfl hpx)
    · obtain ⟨p, q, hneighbours, hp, hq⟩ := exists_neighbours hne hfirst hlast hknot
      exact ⟨p, q, hneighbours, hp, hq,
        number.inj (hy.symm.trans (height_on_line hsorted hneighbours hp hq))⟩
  · obtain ⟨points, rfl⟩ := List.head?_eq_some_iff.mp hp
    exact height_neg_infinity
  · obtain ⟨before, rfl⟩ := List.getLast?_eq_some_iff.mp hp
    exact height_infinity

/-- A polygon that rises from -1 to 1, drops at 0 halfway, and falls from there on. -/
noncomputable def slantedDrop : List (ℝ × ℝ) := [(-1, -1), (0, 1), (0, 0), (1, -1)]

/-- The heights of the polygon with a drop at a knot that is listed once, between two knots, at the
drop and behind all knots. -/
theorem slantedDrop_interpolates :
    slantedDrop ≠ [] ∧ (slantedDrop.Pairwise fun p q ↦ p.1 ≤ q.1) ∧
      height (number (-1)) (corners slantedDrop) = number (-1) ∧
      height (number (-1 / 2)) (corners slantedDrop) = number 0 ∧
      (height (number 0) (corners slantedDrop) = number 1 ∨
        height (number 0) (corners slantedDrop) = number 0) ∧
      height (number 2) (corners slantedDrop) = number (-1) := by
  have hne : slantedDrop ≠ [] := List.cons_ne_nil _ _
  have hsorted : slantedDrop.Pairwise fun p q ↦ p.1 ≤ q.1 := by
    norm_num [slantedDrop]
  obtain ⟨hheight, -, -⟩ := height_interpolates hne hsorted
  refine ⟨hne, hsorted, ?_, ?_, ?_, ?_⟩
  · obtain ⟨y, hy, h⟩ := hheight (-1)
    rw [hy, h.single (by norm_num [slantedDrop]) (-1, -1) List.mem_cons_self rfl]
  · obtain ⟨y, hy, h⟩ := hheight (-1 / 2)
    obtain ⟨p, q, hinfix, hp, hq, hline⟩ := h.line (by norm_num [slantedDrop])
      (by norm_num [slantedDrop]) (by norm_num [slantedDrop])
    -- Only the first two corners are neighbours on either side.
    have hcorners : p = (-1, -1) ∧ q = (0, 1) := by
      simp only [slantedDrop, List.infix_cons_iff, List.cons_prefix_cons, List.nil_prefix,
        List.prefix_nil, List.infix_nil] at hinfix
      obtain ⟨rfl, rfl, -⟩ | ⟨rfl, -⟩ | ⟨rfl, -⟩ | ⟨rfl, h⟩ | h := hinfix
      · exact ⟨rfl, rfl⟩
      · norm_num at hp
      · norm_num at hp
      · norm_num at hp
      · cases h
    obtain ⟨rfl, rfl⟩ := hcorners
    rw [hy, hline]
    norm_num
  · obtain ⟨y, hy, h⟩ := hheight 0
    have hmem : (0, y) ∈ slantedDrop := h.knot (by norm_num [slantedDrop])
    rw [hy, number.injEq, number.injEq]
    simpa [slantedDrop] using hmem
  · obtain ⟨y, hy, h⟩ := hheight 2
    rw [hy, h.behind (1, -1) rfl (by norm_num)]

end FuzzyInference.Interpolation
