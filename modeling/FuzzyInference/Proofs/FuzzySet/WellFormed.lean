import FuzzyInference.Proofs.FuzzySystem.Numbers
import FuzzyInference.Proofs.Scalar.Order

/-!
# Well-formed sets

What makes a set well-formed, said without its check: all numbers in the tree are finite, the knots
of its curves do not decrease, no width is zero, no polygon is without points and no union or
intersection without operands. The check of a set accepts exactly the well-formed ones.
-/

namespace FuzzyInference

open Result

variable {α : Type}

/-! ### Shapes -/

namespace Shape

/-- The knots of a shape, from left to right. -/
def knots : Shape α → List α
  | triangular a b c => [a, b, c]
  | trapezoidal a b c d => [a, b, c, d]
  | twoSidedGaussian _ center₁ _ center₂ => [center₁, center₂]
  | sShaped a b => [a, b]
  | zShaped a b => [a, b]
  | piShaped a b c d => [a, b, c, d]
  | piecewise points => points.map Prod.fst
  | gaussian .. | bell .. | sigmoid .. | sigmoidProduct .. | sigmoidDifference .. => []

/-- The widths of a shape, by which distances are divided. -/
def widths : Shape α → List α
  | gaussian width _ => [width]
  | twoSidedGaussian width₁ _ width₂ _ => [width₁, width₂]
  | bell a _ _ => [a]
  | triangular .. | trapezoidal .. | sigmoid .. | sigmoidProduct .. | sigmoidDifference .. => []
  | sShaped .. | zShaped .. | piShaped .. | piecewise _ => []

variable [Scalar α]

/-- A shape with sound parameters. -/
@[mk_iff]
structure WellFormed (curve : Shape α) : Prop where
  /-- The parameters are finite numbers. -/
  finite : ∀ x ∈ curve.numbers, Scalar.isFinite x = true
  /-- The knots do not decrease. -/
  ascending : curve.knots.IsChain (· ≤ ·)
  /-- The widths are not zero. -/
  widths_ne_zero : ∀ w ∈ curve.widths, (w == 0) = false
  /-- A polygon has points. -/
  has_points : curve ≠ piecewise []

end Shape

section Checks

variable [Scalar α] [Scalar.OrderedFinite α]

namespace SetFault

/-- Finite knots do not decrease exactly when each is at most the next. -/
theorem decreases_eq_false_iff {knots : List α} (hf : ∀ p ∈ knots, Scalar.isFinite p = true) :
    decreases knots = false ↔ knots.IsChain (· ≤ ·) := by
  induction knots with
  | nil => simp [decreases]
  | cons a knots ih =>
    cases knots with
    | nil => simp [decreases]
    | cons b rest =>
      have ha := hf a (by simp)
      have hb := hf b (by simp)
      rw [decreases, Bool.or_eq_false_iff, decide_eq_false_iff_not,
        Scalar.OrderedFinite.not_lt_iff ha hb, ih (List.forall_mem_cons.mp hf).2,
        List.isChain_cons_cons]

/-- Knots pass exactly when they are finite and each is at most the next. -/
theorem requireOrdered_eq_ok_iff_isChain {shape : String} {knots : List α} :
    requireOrdered shape knots = .ok () ↔
      (∀ p ∈ knots, Scalar.isFinite p = true) ∧ knots.IsChain (· ≤ ·) := by
  rw [requireOrdered_eq_ok_iff]
  exact and_congr_right fun hf ↦ decreases_eq_false_iff hf

omit [Scalar.OrderedFinite α] in
/-- A width passes exactly when it is not zero. -/
theorem requireWidth_eq_ok_iff {shape : String} {width : α} :
    requireWidth shape width = .ok () ↔ (width == 0) = false := by
  rw [requireWidth]
  split <;> simp_all

end SetFault

open SetFault in
/-- The check of a shape accepts exactly the well-formed ones. -/
theorem Shape.validate_eq_ok_iff {curve : Shape α} :
    curve.validate = .ok () ↔ curve.WellFormed := by
  rw [wellFormed_iff]
  cases curve with
  | piecewise points =>
    cases points with
    | nil => simp [validate]
    | cons p points =>
      have hv : (piecewise (p :: points)).validate = .ok () ↔
          requireOrdered "piecewise" ((p :: points).map Prod.fst) = .ok () ∧
            requireFinite "piecewise" ((p :: points).map Prod.snd) = .ok () :=
        check_bind_eq_ok_iff
      rw [hv, requireOrdered_eq_ok_iff_isChain, requireFinite_eq_ok_iff, numbers,
        List.forall_mem_append, knots, widths]
      constructor
      · rintro ⟨⟨hx, ha⟩, hy⟩
        exact ⟨⟨hx, hy⟩, ha, by simp, by simp⟩
      · rintro ⟨⟨hx, hy⟩, ha, -, -⟩
        exact ⟨⟨hx, ha⟩, hy⟩
  | twoSidedGaussian width₁ center₁ width₂ center₂ =>
    simp only [validate, check_bind_eq_ok_iff, requireOrdered_eq_ok_iff_isChain,
      requireFinite_eq_ok_iff, requireWidth_eq_ok_iff, numbers, parameters, knots, widths,
      List.map_cons, List.map_nil, List.forall_mem_cons, List.not_mem_nil, false_implies,
      implies_true, and_true, ne_eq, reduceCtorEq, not_false_eq_true]
    -- The check goes through the widths before it comes to the centres.
    tauto
  | _ =>
    simp [validate, numbers, parameters, knots, widths, check_bind_eq_ok_iff,
      requireOrdered_eq_ok_iff_isChain, requireFinite_eq_ok_iff, requireWidth_eq_ok_iff]

end Checks

/-! ### Trees of sets -/

namespace FuzzySet

mutual

/-- Every set in a tree, a node before its operands. -/
def nodes : FuzzySet α → List (FuzzySet α)
  | singleton x => [singleton x]
  | discrete degrees => [discrete degrees]
  | constant value => [constant value]
  | shape curve => [shape curve]
  | not set => not set :: nodes set
  | scale set factor => scale set factor :: nodes set
  | implication op degree set => implication op degree set :: nodes set
  | or op? sets => or op? sets :: nodesAll sets
  | and op? sets => and op? sets :: nodesAll sets

/-- Every set in a list of trees. -/
def nodesAll : List (FuzzySet α) → List (FuzzySet α)
  | [] => []
  | set :: sets => nodes set ++ nodesAll sets

end

/-- What stands in a list of trees stands in one of them. -/
theorem mem_nodesAll_iff {t : FuzzySet α} {ss : List (FuzzySet α)} :
    t ∈ nodesAll ss ↔ ∃ s ∈ ss, t ∈ s.nodes := by
  induction ss with
  | nil => simp [nodesAll]
  | cons s ss ih => simp [nodesAll, ih]

mutual

/-- The numbers of what stands in a tree are among those of the tree. -/
theorem numbers_subset_of_mem_nodes {t : FuzzySet α} : {s : FuzzySet α} → t ∈ s.nodes →
    t.numbers ⊆ s.numbers
  | singleton _, h => by simp_all [nodes]
  | discrete _, h => by simp_all [nodes]
  | constant _, h => by simp_all [nodes]
  | shape _, h => by simp_all [nodes]
  | not s, h => by
    rcases List.mem_cons.mp h with rfl | h
    · exact List.Subset.refl _
    · exact numbers_subset_of_mem_nodes (s := s) h
  | scale s factor, h => by
    rcases List.mem_cons.mp h with rfl | h
    · exact List.Subset.refl _
    · exact List.subset_cons_of_subset factor (numbers_subset_of_mem_nodes (s := s) h)
  | implication _ truth s, h => by
    rcases List.mem_cons.mp h with rfl | h
    · exact List.Subset.refl _
    · exact List.subset_cons_of_subset truth (numbers_subset_of_mem_nodes (s := s) h)
  | or _ sets, h => by
    rcases List.mem_cons.mp h with rfl | h
    · exact List.Subset.refl _
    · exact numbers_subset_of_mem_nodesAll h
  | and _ sets, h => by
    rcases List.mem_cons.mp h with rfl | h
    · exact List.Subset.refl _
    · exact numbers_subset_of_mem_nodesAll h

/-- The numbers of what stands in several trees are among those of the trees. -/
theorem numbers_subset_of_mem_nodesAll {t : FuzzySet α} : {sets : List (FuzzySet α)} →
    t ∈ nodesAll sets → t.numbers ⊆ numbersAll sets
  | s :: sets, h => by
    rcases List.mem_append.mp h with h | h
    · exact List.subset_append_of_subset_left _ (numbers_subset_of_mem_nodes h)
    · exact List.subset_append_of_subset_right _ (numbers_subset_of_mem_nodesAll h)

end

variable [Scalar α]

/-- A set with sound parameters in all of its nodes. -/
@[mk_iff]
structure WellFormed (s : FuzzySet α) : Prop where
  /-- The numbers in the tree are finite. -/
  finite : ∀ x ∈ s.numbers, Scalar.isFinite x = true
  /-- The curves in the tree are sound. -/
  curves : ∀ curve, shape curve ∈ s.nodes → curve.WellFormed
  /-- The unions in the tree have operands. -/
  unions : ∀ op?, or op? [] ∉ s.nodes
  /-- The intersections in the tree have operands. -/
  intersections : ∀ op?, and op? [] ∉ s.nodes

private theorem wellFormed_node_iff {s : FuzzySet α} (own : List α) (ss : List (FuzzySet α))
    (hnumbers : s.numbers = own ++ numbersAll ss) (hnodes : s.nodes = s :: nodesAll ss)
    (hshape : ∀ curve, s ≠ shape curve) :
    s.WellFormed ↔ (∀ x ∈ own, Scalar.isFinite x = true) ∧
      ((∀ op?, s ≠ or op? []) ∧ ∀ op?, s ≠ and op? []) ∧ ∀ t ∈ ss, t.WellFormed := by
  simp only [wellFormed_iff, hnumbers, hnodes, List.mem_append, List.mem_cons,
    mem_nodesAll_iff, mem_numbersAll_iff]
  constructor
  · rintro ⟨hf, hc, hu, hi⟩
    refine ⟨fun x hx ↦ hf x (.inl hx), ⟨fun op? he ↦ hu op? (.inl he.symm),
      fun op? he ↦ hi op? (.inl he.symm)⟩, fun t ht ↦ ⟨?_, ?_, ?_, ?_⟩⟩
    · exact fun x hx ↦ hf x (.inr ⟨t, ht, hx⟩)
    · exact fun curve hm ↦ hc curve (.inr ⟨t, ht, hm⟩)
    · exact fun op? hm ↦ hu op? (.inr ⟨t, ht, hm⟩)
    · exact fun op? hm ↦ hi op? (.inr ⟨t, ht, hm⟩)
  · rintro ⟨hown, ⟨hu, hi⟩, hall⟩
    refine ⟨?_, ?_, ?_, ?_⟩
    · rintro x (hx | ⟨t, ht, hx⟩)
      · exact hown x hx
      · exact (hall t ht).1 x hx
    · rintro curve (he | ⟨t, ht, hm⟩)
      · exact absurd he.symm (hshape curve)
      · exact (hall t ht).2.1 curve hm
    · rintro op? (he | ⟨t, ht, hm⟩)
      · exact hu op? he.symm
      · exact (hall t ht).2.2.1 op? hm
    · rintro op? (he | ⟨t, ht, hm⟩)
      · exact hi op? he.symm
      · exact (hall t ht).2.2.2 op? hm

/-- A curve is well-formed as a set exactly when it is well-formed as a shape. -/
@[simp] theorem wellFormed_shape_iff {curve : Shape α} :
    (shape curve).WellFormed ↔ curve.WellFormed := by
  simp only [wellFormed_iff, nodes, numbers, List.mem_singleton, shape.injEq, reduceCtorEq,
    not_false_eq_true, implies_true, and_true]
  constructor
  · rintro ⟨-, h⟩
    exact h curve rfl
  · intro h
    refine ⟨h.finite, ?_⟩
    rintro _ rfl
    exact h

/-- A complement is well-formed exactly when its operand is. -/
@[simp] theorem wellFormed_not_iff {s : FuzzySet α} : (not s).WellFormed ↔ s.WellFormed := by
  rw [wellFormed_node_iff [] [s] (by simp [numbers, numbersAll])
    (by simp [nodes, nodesAll]) (by simp)]
  simp

/-- A scaled set is well-formed exactly when its operand is and the factor is finite. -/
@[simp] theorem wellFormed_scale_iff {s : FuzzySet α} {factor : α} :
    (scale s factor).WellFormed ↔ Scalar.isFinite factor = true ∧ s.WellFormed := by
  rw [wellFormed_node_iff [factor] [s] (by simp [numbers, numbersAll])
    (by simp [nodes, nodesAll]) (by simp)]
  simp

/-- A concluded set is well-formed exactly when its operand is and the degree is finite. -/
@[simp] theorem wellFormed_implication_iff {op : Implication} {degree : α} {s : FuzzySet α} :
    (implication op degree s).WellFormed ↔ Scalar.isFinite degree = true ∧ s.WellFormed := by
  rw [wellFormed_node_iff [degree] [s] (by simp [numbers, numbersAll])
    (by simp [nodes, nodesAll]) (by simp)]
  simp

/-- A union is well-formed exactly when it has operands and all of them are well-formed. -/
@[simp] theorem wellFormed_or_iff {op? : Option Disjunction} {ss : List (FuzzySet α)} :
    (or op? ss).WellFormed ↔ ss ≠ [] ∧ ∀ s ∈ ss, s.WellFormed := by
  rw [wellFormed_node_iff [] ss (by simp [numbers]) (by simp [nodes]) (by simp)]
  simp

/-- An intersection is well-formed exactly when it has operands and all of them are
well-formed. -/
@[simp] theorem wellFormed_and_iff {op? : Option Conjunction} {ss : List (FuzzySet α)} :
    (and op? ss).WellFormed ↔ ss ≠ [] ∧ ∀ s ∈ ss, s.WellFormed := by
  rw [wellFormed_node_iff [] ss (by simp [numbers]) (by simp [nodes]) (by simp)]
  simp

mutual

/-- The check of a set accepts exactly the well-formed ones. -/
theorem validate_eq_ok_iff [Scalar.OrderedFinite α] :
    {s : FuzzySet α} → (s.validate = .ok () ↔ s.WellFormed)
  | singleton (.number x) => by
    simp [validate, SetFault.requireFinite_eq_ok_iff, wellFormed_iff, nodes, numbers]
  | singleton (.label _) => by simp [validate, wellFormed_iff, nodes, numbers]
  | discrete table => by
    simp [validate, SetFault.requireFinite_eq_ok_iff, wellFormed_iff, nodes, numbers]
  | constant value => by
    simp [validate, SetFault.requireFinite_eq_ok_iff, wellFormed_iff, nodes, numbers]
  | shape curve => by rw [validate, wellFormed_shape_iff, Shape.validate_eq_ok_iff]
  | not s => by rw [validate, wellFormed_not_iff, validate_eq_ok_iff]
  | scale s factor => by
    rw [validate, check_bind_eq_ok_iff, SetFault.requireFinite_eq_ok_iff, wellFormed_scale_iff,
      validate_eq_ok_iff (s := s), List.forall_mem_singleton]
  | implication _ degree s => by
    rw [validate, check_bind_eq_ok_iff, SetFault.requireFinite_eq_ok_iff,
      wellFormed_implication_iff, validate_eq_ok_iff (s := s), List.forall_mem_singleton]
  | or op? ss => by
    rw [validate_or_eq_ok_iff, wellFormed_or_iff, validateAll_eq_ok_iff_wellFormed]
  | and op? ss => by
    rw [validate_and_eq_ok_iff, wellFormed_and_iff, validateAll_eq_ok_iff_wellFormed]

/-- The check of several sets accepts exactly the lists of well-formed ones. -/
theorem validateAll_eq_ok_iff_wellFormed [Scalar.OrderedFinite α] :
    {ss : List (FuzzySet α)} → (validateAll ss = .ok () ↔ ∀ s ∈ ss, s.WellFormed)
  | [] => by simp [validateAll]
  | s :: ss => by
    rw [validateAll, check_bind_eq_ok_iff, validate_eq_ok_iff (s := s),
      validateAll_eq_ok_iff_wellFormed, List.forall_mem_cons]

end

end FuzzySet

end FuzzyInference
