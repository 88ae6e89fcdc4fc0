import FuzzyInference.Proofs.CSource.Combination
import FuzzyInference.Proofs.FuzzySet.Validation

/-!
# The meaning of written sets

The expression for a valid set means the degree of the variable in that set.
-/

namespace FuzzyInference.CSource

open Expression Result

variable {functions : Functions Exact} {env : Environment Exact} {x : String} {v : ℝ}

/-! ### Shapes -/

private theorem shapeCall_means {function : String} {parameters : List Exact} {y : Exact}
    (henv : env function = none) (hx : env x = some (.floating (.number v)))
    (hf : functions function (.number v :: parameters) = some y) :
    Means functions env 0 (shapeCall function x parameters) y := by
  refine .call henv (by simp) (.cons ((Means.name hx).passes (by decide)) ?_) hf
  rw [List.forall₂_map_left_iff, List.forall₂_same]
  exact fun p _ ↦ (Means.number p).passes (by decide)

/-- The height that the segments of a polygon give, without regard to where the first one starts. -/
private noncomputable def segmentHeight (v : Exact) : List (Exact × Exact) → Exact
  | [] => .nan
  | [(_, y)] => y
  | (x₁, y₁) :: (x₂, y₂) :: rest =>
    if v ≤ x₂ then Interpolation.lerp v x₁ y₁ x₂ y₂ else segmentHeight v ((x₂, y₂) :: rest)

private theorem segments_means (hk : KnowsPrelude functions) (hu : Unshadowed env)
    (hx : env x = some (.floating (.number v))) (points : List (Exact × Exact)) :
    ∀ x₁ y₁ : Exact, Means functions env 8 (segments x ((x₁, y₁) :: points))
      (segmentHeight (.number v) ((x₁, y₁) :: points)) := by
  induction points with
  | nil => exact fun _ y₁ ↦ (Means.number y₁).of_le (by decide)
  | cons p rest ih =>
    intro x₁ y₁
    have hline : Means functions env 0 (shapeCall "fz_lerp" x [x₁, y₁, p.1, p.2]) _ :=
      shapeCall_means (hu _ (by simp)) hx (hk.lerp _ _ _ _ _)
    have hcond : Holds functions env 4 ([.name x] ++ .lessEqual :: literal p.1) _ :=
      .lessEqual (Means.name hx) ((Means.number p.1).of_le (by decide))
    rw [segments, segmentHeight]
    simpa using Means.choice (hcond.of_le (by decide)) (hline.of_le (by decide)) (ih _ _)

private theorem segmentHeight_eq (points : List (Exact × Exact)) :
    ∀ {x₁ y₁ : Exact}, (∀ p ∈ points, Scalar.isFinite p.1 = true) → x₁ ≤ .number v →
      segmentHeight (.number v) ((x₁, y₁) :: points) =
        Interpolation.heightFrom (.number v) ((x₁, y₁) :: points) := by
  induction points with
  | nil =>
    intro x₁ y₁ _ hle
    rw [segmentHeight, Interpolation.heightFrom, if_pos hle]
  | cons p rest ih =>
    obtain ⟨x₂, y₂⟩ := p
    intro x₁ y₁ hfin hle
    rw [List.forall_mem_cons] at hfin
    obtain ⟨k, rfl⟩ := Exact.isFinite_iff.mp hfin.1
    rw [segmentHeight, Interpolation.heightFrom]
    by_cases hv : v ≤ k
    · rw [if_pos (Exact.number_le.mpr hv), if_pos ⟨hle, Exact.number_le.mpr hv⟩]
    · rw [if_neg (mt Exact.number_le.mp hv), if_neg fun h ↦ hv (Exact.number_le.mp h.2)]
      exact ih hfin.2 (Exact.number_le.mpr (le_of_not_ge hv))

private theorem piecewise_means (hk : KnowsPrelude functions) (hu : Unshadowed env)
    (hx : env x = some (.floating (.number v))) {x₁ y₁ : Exact} {rest : List (Exact × Exact)}
    (hfin : ∀ p ∈ (x₁, y₁) :: rest, Scalar.isFinite p.1 = true) :
    Means functions env 8
      (grouped (choice (.name x :: .less :: literal x₁) (literal y₁)
        (segments x ((x₁, y₁) :: rest))))
      (Interpolation.height (.number v) ((x₁, y₁) :: rest)) := by
  have hcond : Holds functions env 4 ([.name x] ++ .less :: literal x₁) _ :=
    .less (Means.name hx) ((Means.number x₁).of_le (by decide))
  have hchoice := Means.choice (hcond.of_le (by decide))
    ((Means.number y₁).of_le (by decide)) (segments_means hk hu hx rest x₁ y₁)
  rw [List.forall_mem_cons] at hfin
  obtain ⟨k, rfl⟩ := Exact.isFinite_iff.mp hfin.1
  have hheight : Interpolation.height (.number v) ((.number k, y₁) :: rest) =
      if v < k then y₁ else segmentHeight (.number v) ((.number k, y₁) :: rest) := by
    rw [Interpolation.height]
    by_cases hv : v < k
    · rw [if_pos hv, if_pos (Exact.number_lt.mpr hv)]
    · rw [if_neg hv, if_neg (mt Exact.number_lt.mp hv),
        segmentHeight_eq rest hfin.2 (Exact.number_le.mpr (not_lt.mp hv))]
  rw [hheight]
  simpa using (hchoice.group (by decide)).of_le (n := 8) (by decide)

private theorem logistic_number (a c : ℝ) :
    ∃ y, Shape.logistic (Exact.number v) (Exact.number a) (Exact.number c) = Exact.number y := by
  refine ⟨1 / (1 + Real.exp (-a * (v - c))), ?_⟩
  rw [Shape.logistic, Exact.neg_number, Exact.number_sub, Exact.number_mul, Exact.exp_number,
    Exact.ofNat_eq, Nat.cast_one]
  exact Exact.one_div_one_add_exp

private theorem sigmoidDifference_means (hk : KnowsPrelude functions) (hu : Unshadowed env)
    (hx : env x = some (.floating (.number v))) {a₁ c₁ a₂ c₂ : Exact}
    (hv : (Shape.sigmoidDifference a₁ c₁ a₂ c₂).validate = .ok ()) :
    Means functions env 0
      (call "fmin" [literal 1, call "fmax" [literal 0, shapeCall "fz_sigmoid" x [a₁, c₁] ++
        .minus :: shapeCall "fz_sigmoid" x [a₂, c₂]]])
      ((Shape.sigmoidDifference a₁ c₁ a₂ c₂).degree (.number v)) := by
  have hfin := SetFault.requireFinite_eq_ok_iff.mp hv
  simp only [List.forall_mem_cons, Exact.isFinite_iff] at hfin
  obtain ⟨⟨a₁, rfl⟩, ⟨c₁, rfl⟩, ⟨a₂, rfl⟩, ⟨c₂, rfl⟩, -⟩ := hfin
  have hleft : Means functions env 0 (shapeCall "fz_sigmoid" x [.number a₁, .number c₁]) _ :=
    shapeCall_means (hu _ (by simp)) hx (hk.sigmoid _ _ _)
  have hright : Means functions env 0 (shapeCall "fz_sigmoid" x [.number a₂, .number c₂]) _ :=
    shapeCall_means (hu _ (by simp)) hx (hk.sigmoid _ _ _)
  obtain ⟨y₁, hy₁⟩ := logistic_number (v := v) a₁ c₁
  obtain ⟨y₂, hy₂⟩ := logistic_number (v := v) a₂ c₂
  rw [Shape.degree, hy₁, hy₂]
  rw [hy₁] at hleft
  rw [hy₂] at hright
  have hd := (hleft.of_le (n := 3) (by decide)).minus (hright.of_le (by decide))
  have hmax := Means.call (hu "fmax" (by simp)) (by simp)
    (.cons ((Means.number 0).passes (by decide)) (.cons (hd.passes (by decide)) .nil))
    (hk.fmax _ _)
  have hmin := Means.call (hu "fmin" (by simp)) (by simp)
    (.cons ((Means.number 1).passes (by decide)) (.cons (hmax.passes (by decide)) .nil))
    (hk.fmin _ _)
  have hclamp := Exact.min_one_max_zero (x := y₁ - y₂)
  simp only [Exact.number_sub, Exact.ofNat_eq, Nat.cast_one, Nat.cast_zero] at hmin ⊢
  rw [← hclamp]
  exact hmin

/-- The expression for a valid shape means the height at the variable. -/
theorem shape_means (hk : KnowsPrelude functions) (hu : Unshadowed env)
    (hx : env x = some (.floating (.number v))) {curve : Shape Exact}
    (hv : curve.validate = .ok ()) {e : Expression Exact} (he : shape x curve = .ok e) :
    Means functions env 8 e (curve.degree (.number v)) := by
  have hone : Means functions env 0 (literal 1) (1 : Exact) := .number 1
  cases curve with
  | triangular a b c =>
    cases he
    exact (shapeCall_means (hu _ (by simp)) hx (hk.triangular _ _ _ _)).of_le (by decide)
  | trapezoidal a b c d =>
    cases he
    exact (shapeCall_means (hu _ (by simp)) hx (hk.trapezoidal _ _ _ _ _)).of_le (by decide)
  | gaussian width center =>
    cases he
    exact (shapeCall_means (hu _ (by simp)) hx (hk.gaussian _ _ _)).of_le (by decide)
  | twoSidedGaussian width₁ center₁ width₂ center₂ =>
    cases he
    exact (shapeCall_means (hu _ (by simp)) hx (hk.twoSidedGaussian _ _ _ _ _)).of_le (by decide)
  | bell a b c =>
    cases he
    exact (shapeCall_means (hu _ (by simp)) hx (hk.bell _ _ _ _)).of_le (by decide)
  | sigmoid slope center =>
    cases he
    exact (shapeCall_means (hu _ (by simp)) hx (hk.sigmoid _ _ _)).of_le (by decide)
  | sigmoidProduct slope₁ center₁ slope₂ center₂ =>
    cases he
    have hleft := shapeCall_means (hu "fz_sigmoid" (by simp)) hx (hk.sigmoid _ slope₁ center₁)
    have hright := shapeCall_means (hu "fz_sigmoid" (by simp)) hx (hk.sigmoid _ slope₂ center₂)
    exact ((hleft.of_le (by decide)).times (hright.of_le (by decide))).of_le (by decide)
  | sigmoidDifference slope₁ center₁ slope₂ center₂ =>
    cases he
    exact (sigmoidDifference_means hk hu hx hv).of_le (by decide)
  | sShaped a b =>
    cases he
    exact (shapeCall_means (hu _ (by simp)) hx (hk.sShaped _ _ _)).of_le (by decide)
  | zShaped a b =>
    cases he
    have hs := shapeCall_means (hu "fz_s_shaped" (by simp)) hx (hk.sShaped _ a b)
    exact ((hone.of_le (by decide)).minus (hs.of_le (by decide))).of_le (by decide)
  | piShaped a b c d =>
    cases he
    have hs := shapeCall_means (hu "fz_s_shaped" (by simp)) hx (hk.sShaped _ a b)
    have hz := (hone.of_le (n := 3) (by decide)).minus
      ((shapeCall_means (hu "fz_s_shaped" (by simp)) hx (hk.sShaped _ c d)).of_le (by decide))
    exact ((hs.of_le (by decide)).times ((hz.group (by decide)).of_le (by decide))).of_le
      (by decide)
  | piecewise points =>
    obtain ⟨-, hfin, -⟩ := Shape.of_validate_piecewise hv
    cases points with
    | nil => cases he
    | cons p rest =>
      cases he
      exact piecewise_means hk hu hx hfin

/-! ### Sets -/

private theorem match_means (hx : env x = some (.floating (.number v))) {k d y : Exact}
    {e : Expression Exact} {n : Nat} (hn : n ≤ 8) (he : Means functions env n e y) :
    Means functions env 0 (grouped (choice (.name x :: .equal :: literal k) (literal d) e))
      (if k == .number v then d else y) := by
  have hcond : Holds functions env 7 ([.name x] ++ .equal :: literal k) _ :=
    .equal (Means.name hx) (Means.number k)
  rw [Exact.beq_comm] at hcond
  exact (Means.choice hcond ((Means.number d).of_le (by decide)) (he.of_le hn)).group (by decide)

/-- The degree that the first of several entries gives to a point that its key names. -/
private def listedIn {α : Type} [Scalar α] (point : Point α) (entries : List (String × α)) : α :=
  match entries.find? fun entry ↦ point.matchesKey entry.1 with
  | some (_, degree) => degree
  | none => 0

private theorem listed_means (hx : env x = some (.floating (.number v)))
    {entries : List (String × Exact)} :
    ∀ {e : Expression Exact}, listed x entries = .ok e →
      Means functions env 0 e (listedIn (.number (.number v)) entries) := by
  induction entries with
  | nil =>
    rintro e ⟨⟩
    exact .number 0
  | cons entry rest ih =>
    obtain ⟨key, degree⟩ := entry
    intro e he
    obtain ⟨others, ho, he⟩ := bind_eq_ok_iff.mp he
    have hothers := ih ho
    cases hk : (Scalar.ofText? (Text.trim key.toList) : Option Exact) with
    | none =>
      rw [hk] at he
      cases he
    | some k =>
      rw [hk] at he
      cases he
      have hd : listedIn (.number (.number v)) ((key, degree) :: rest) =
          if k == .number v then degree else listedIn (.number (.number v)) rest := by
        simp only [listedIn, List.find?_cons, Point.matchesKey, hk]
        cases k == .number v <;> rfl
      rw [hd]
      exact match_means hx (by decide) hothers

private theorem set_of_body {ctx : Context} {s : FuzzySet Exact} {e : Expression Exact} {y : Exact}
    (hb : ∀ {body}, setBody ctx x s = .ok body → Means functions env 8 body y)
    (he : set ctx x s = .ok e) : Means functions env 0 e y := by
  rw [set] at he
  obtain ⟨body, hbody, ⟨⟩⟩ := bind_eq_ok_iff.mp he
  exact (hb hbody).group (Nat.le_refl 8)

private theorem ne_nil_of_degrees {R : Expression Exact → Exact → Prop} {ctx : Context}
    {p : Point Exact} {es : List (Expression Exact)} {ss : List (FuzzySet Exact)}
    (h : List.Forall₂ R es (FuzzySet.degrees ctx p ss)) (hne : ss ≠ []) : es ≠ [] := by
  rintro rfl
  cases ss with
  | nil => exact hne rfl
  | cons s ss => cases h

mutual

/-- The body of the expression for a valid set means the degree of the variable. -/
theorem setBody_means (hk : KnowsPrelude functions) (hu : Unshadowed env)
    (hx : env x = some (.floating (.number v))) (ctx : Context) :
    (s : FuzzySet Exact) → s.validate = .ok () → {e : Expression Exact} →
      setBody ctx x s = .ok e → Means functions env 8 e (s.degree ctx (.number (.number v)))
  | .singleton (.number x₀), _, e, he => by
    rw [setBody] at he
    cases he
    exact (match_means hx (Nat.zero_le 8) (Means.number 0)).of_le (by decide)
  | .singleton (.label name), _, e, he => by
    rw [setBody] at he
    cases he
  | .discrete table, _, e, he => by
    rw [setBody] at he
    exact (listed_means hx he).of_le (by decide)
  | .constant value, _, e, he => by
    rw [setBody] at he
    cases he
    exact (Means.number value).of_le (by decide)
  | .shape curve, hv, e, he => by
    rw [setBody] at he
    exact shape_means hk hu hx hv he
  | .not s, hv, e, he => by
    rw [setBody] at he
    obtain ⟨inner, hi, ⟨⟩⟩ := bind_eq_ok_iff.mp he
    have hinner := set_of_body (setBody_means hk hu hx ctx s hv) hi
    exact (((Means.number 1).of_le (by decide)).minus
      ((hinner.group (by decide)).of_le (by decide))).of_le (by decide)
  | .scale s factor, hv, e, he => by
    rw [setBody] at he
    obtain ⟨inner, hi, ⟨⟩⟩ := bind_eq_ok_iff.mp he
    have hinner := set_of_body (setBody_means hk hu hx ctx s (FuzzySet.validate_of_scale hv)) hi
    exact (((Means.number factor).of_le (by decide)).times
      ((hinner.group (by decide)).of_le (by decide))).of_le (by decide)
  | .implication op truth s, hv, e, he => by
    rw [setBody] at he
    obtain ⟨inner, hi, he⟩ := bind_eq_ok_iff.mp he
    have hinner :=
      set_of_body (setBody_means hk hu hx ctx s (FuzzySet.validate_of_implication hv)) hi
    cases op with
    | minimum =>
      cases he
      exact (Means.call (hu _ (by simp)) (by simp) (.cons ((Means.number truth).passes (by decide))
        (.cons (hinner.passes (by decide)) .nil)) (hk.fmin _ _)).of_le (by decide)
    | product =>
      cases he
      exact (((Means.number truth).of_le (by decide)).times
        ((hinner.group (by decide)).of_le (by decide))).of_le (by decide)
  | .or op? ss, hv, e, he => by
    rw [setBody] at he
    obtain ⟨es, hes, ⟨⟩⟩ := bind_eq_ok_iff.mp he
    obtain ⟨hne, hall⟩ := FuzzySet.validate_or_eq_ok_iff.mp hv
    have hes := sets_means hk hu hx ctx ss hall hes
    exact (disjunction_means hk hu _ (Nat.zero_le 2) hes
      (ne_nil_of_degrees hes hne)).of_le (by decide)
  | .and op? ss, hv, e, he => by
    rw [setBody] at he
    obtain ⟨es, hes, ⟨⟩⟩ := bind_eq_ok_iff.mp he
    obtain ⟨hne, hall⟩ := FuzzySet.validate_and_eq_ok_iff.mp hv
    have hes := sets_means hk hu hx ctx ss hall hes
    exact (conjunction_means hk hu _ (Nat.zero_le 2) hes
      (ne_nil_of_degrees hes hne)).of_le (by decide)

/-- The expressions for valid sets mean the degrees of the variable. -/
theorem sets_means (hk : KnowsPrelude functions) (hu : Unshadowed env)
    (hx : env x = some (.floating (.number v))) (ctx : Context) :
    (ss : List (FuzzySet Exact)) → FuzzySet.validateAll ss = .ok () →
      {es : List (Expression Exact)} → sets ctx x ss = .ok es →
        List.Forall₂ (Means functions env 0) es (FuzzySet.degrees ctx (.number (.number v)) ss)
  | [], _, es, he => by
    rw [sets] at he
    cases he
    exact .nil
  | s :: ss, hv, es, he => by
    rw [sets] at he
    obtain ⟨e, hs, he⟩ := bind_eq_ok_iff.mp he
    obtain ⟨rest, hss, ⟨⟩⟩ := bind_eq_ok_iff.mp he
    obtain ⟨hvs, hvss⟩ := check_bind_eq_ok_iff.mp hv
    exact .cons (set_of_body (setBody_means hk hu hx ctx s hvs) hs)
      (sets_means hk hu hx ctx ss hvss hss)

end

/-- The expression for a valid set means the degree of the variable, and needs no parentheses. -/
theorem set_means (hk : KnowsPrelude functions) (hu : Unshadowed env)
    (hx : env x = some (.floating (.number v))) {ctx : Context} {s : FuzzySet Exact}
    (hv : s.validate = .ok ()) {e : Expression Exact} (he : set ctx x s = .ok e) :
    Means functions env 0 e (s.degree ctx (.number (.number v))) :=
  set_of_body (setBody_means hk hu hx ctx s hv) he

end FuzzyInference.CSource
