import FuzzyInference.Operator.Combine
import FuzzyInference.Proofs.Scalar.Exact

/-!
# Arithmetic of numbers

The derived operations on exact scalars that are numbers: the smaller and the larger one, and the
least, the greatest, the sum and the product of a list. They come to those of the real numbers.
-/

namespace FuzzyInference.Exact

variable {x y : ℝ}

/-! ### Two numbers -/

/-- The numeral zero. -/
theorem zero_eq : (0 : Exact) = number 0 := by simp

/-- The numeral one. -/
theorem one_eq : (1 : Exact) = number 1 := by simp

/-- The numeral two. -/
theorem two_eq : (2 : Exact) = number 2 := by simp

/-- The smaller of two numbers. -/
@[simp] theorem min_number : Scalar.min (number x) (number y) = number (min x y) := by
  simp only [Scalar.min, isNan_number, Bool.false_eq_true, if_false, number_lt]
  split
  · next h => rw [min_eq_right h.le]
  · next h => rw [min_eq_left (not_lt.mp h)]

/-- The larger of two numbers. -/
@[simp] theorem max_number : Scalar.max (number x) (number y) = number (max x y) := by
  simp only [Scalar.max, isNan_number, Bool.false_eq_true, if_false, number_lt]
  split
  · next h => rw [max_eq_right h.le]
  · next h => rw [max_eq_left (not_lt.mp h)]

/-- The absolute value of a number. -/
@[simp] theorem abs_number : Scalar.abs (number x) = number |x| := rfl

/-- The square of a number. -/
@[simp] theorem square_number : Scalar.square (number x) = number (x ^ 2) := by
  rw [Scalar.square, number_mul, sq]

/-- The quotient by a positive number. -/
theorem number_div_of_pos (hy : 0 < y) : number x / number y = number (x / y) :=
  number_div hy.ne'

/-- A number that is kept within two others. -/
theorem clamp_number {l h : ℝ} (hlh : l ≤ h) :
    Scalar.clamp (number l) (number h) (number x) = number (max l (min h x)) := by
  simp only [Scalar.clamp, number_lt]
  split
  · next hx => rw [max_eq_left ((min_le_right h x).trans hx.le)]
  · next hx =>
    split
    · next hh => rw [min_eq_left hh.le, max_eq_right hlh]
    · next hh => rw [min_eq_right (not_lt.mp hh), max_eq_right (not_lt.mp hx)]

/-- What is below a scalar is at most that scalar. -/
protected theorem le_of_lt {a b : Exact} (h : a < b) : a ≤ b := by
  cases a with
  | number x =>
    cases b with
    | number y => exact le_of_lt (number_lt.mp h)
    | infinite t => exact h
    | nan => cases h
  | infinite s =>
    cases b with
    | number y => exact h
    | infinite t => exact .inl h.1
    | nan => cases h
  | nan => cases h

/-! ### Lists of numbers -/

/-- A list whose elements are numbers with a property is a list of such numbers. -/
theorem exists_map_number {p : ℝ → Prop} {as : List Exact}
    (h : ∀ a ∈ as, ∃ x, p x ∧ a = number x) :
    ∃ xs : List ℝ, (∀ x ∈ xs, p x) ∧ as = xs.map number := by
  induction as with
  | nil => exact ⟨[], nofun, rfl⟩
  | cons a as ih =>
    rw [List.forall_mem_cons] at h
    obtain ⟨⟨x, hx, rfl⟩, h⟩ := h
    obtain ⟨xs, hxs, rfl⟩ := ih h
    exact ⟨x :: xs, List.forall_mem_cons.mpr ⟨hx, hxs⟩, rfl⟩

variable (xs : List ℝ)

/-- The least of a list of numbers. -/
theorem minimum?_map_number : Scalar.minimum? (xs.map number) = xs.min?.map number := by
  cases xs with
  | nil => rfl
  | cons x xs =>
    rw [List.map_cons, Scalar.minimum?, List.foldl_map, List.min?_cons', Option.map_some]
    exact congrArg some (List.foldl_hom number fun _ _ ↦ min_number)

/-- The greatest of a list of numbers. -/
theorem maximum?_map_number : Scalar.maximum? (xs.map number) = xs.max?.map number := by
  cases xs with
  | nil => rfl
  | cons x xs =>
    rw [List.map_cons, Scalar.maximum?, List.foldl_map, List.max?_cons', Option.map_some]
    exact congrArg some (List.foldl_hom number fun _ _ ↦ max_number)

/-- The sum of a list of numbers. -/
theorem sum_map_number : Scalar.sum (xs.map number) = number xs.sum := by
  rw [Scalar.sum, ofNat_eq, Nat.cast_zero, List.foldl_map, List.sum_eq_foldl]
  exact List.foldl_hom number fun _ _ ↦ number_add

/-- The product of a list of numbers. -/
theorem product_map_number : Scalar.product (xs.map number) = number xs.prod := by
  rw [Scalar.product, ofNat_eq, Nat.cast_one, List.foldl_map, List.prod_eq_foldl]
  exact List.foldl_hom number fun _ _ ↦ number_mul

end FuzzyInference.Exact
