import FuzzyInference.Proofs.Scalar.Number
import Mathlib.Data.EReal.Basic
import Mathlib.Data.EReal.Operations

/-!
# Scalars in any order

Exact sums, products and greatest elements do not depend on the order of a list, infinities and
values that are no numbers included: the operations are commutative and associative on all exact
scalars.
-/

namespace FuzzyInference

open Scalar

namespace Exact

variable {x y : ℝ} {s t : Bool} {a b c : Exact}

/-! ### Sums -/

/-- A number does not move an infinity. -/
@[simp] theorem number_add_infinite : number x + infinite s = infinite s := rfl

/-- What is added to no number is no number. -/
@[simp] theorem add_nan : a + nan = nan := by
  cases a <;> rfl

/-- The order of terms does not matter. -/
protected theorem add_comm (a b : Exact) : a + b = b + a := by
  cases a with
  | nan => cases b <;> rfl
  | number x =>
    cases b with
    | number y => exact congrArg number (add_comm x y)
    | infinite t | nan => rfl
  | infinite s =>
    cases b with
    | number y | nan => rfl
    | infinite t => cases s <;> cases t <;> rfl

/-- What no number is added to is no number. -/
@[simp] theorem nan_add : nan + a = nan := by
  rw [Exact.add_comm, add_nan]

/-- An infinity is not moved by a number. -/
@[simp] theorem infinite_add_number : infinite s + number x = infinite s := rfl

/-- Terms may be grouped in any way. -/
protected theorem add_assoc (a b c : Exact) : a + b + c = a + (b + c) := by
  cases a with
  | nan => simp
  | number x =>
    cases b with
    | nan => simp
    | number y => cases c <;> simp [add_assoc]
    | infinite t =>
      cases c with
      | number z | nan => simp
      | infinite u => cases t <;> cases u <;> rfl
  | infinite s =>
    cases b with
    | nan => simp
    | number y => cases c <;> simp
    | infinite t =>
      cases c with
      | nan => simp
      | number z => cases s <;> cases t <;> rfl
      | infinite u => cases s <;> cases t <;> cases u <;> rfl

/-! ### Products -/

/-- The product with no number is no number. -/
@[simp] theorem mul_nan : a * nan = nan := by
  cases a <;> rfl

/-- The product of no number is no number. -/
@[simp] theorem nan_mul : nan * a = nan := by
  rw [Exact.mul_comm, mul_nan]

/-- A scalar is negative or not, unless it is zero or no number. -/
noncomputable def negative? : Exact → Option Bool
  | number x => if x = 0 then none else some (decide (x < 0))
  | infinite s => some s
  | nan => none

/-- An infinity is turned around by what is negative, and lost by what has no sign. -/
theorem infinite_mul :
    infinite s * a = ((negative? a).map fun t ↦ infinite (s != t)).getD nan := by
  cases a with
  | number x =>
    show scaleInfinite s x = _
    by_cases hx : x = 0
    · simp [scaleInfinite, negative?, hx]
    · simp [scaleInfinite, negative?, hx]
  | infinite t => rfl
  | nan => rfl

private theorem negative?_mul_number (x y : ℝ) :
    negative? (number x * number y) =
      (negative? (number x)).bind fun s ↦ (negative? (number y)).map fun t ↦ s != t := by
  simp only [number_mul, negative?]
  rcases lt_trichotomy x 0 with hx | rfl | hx
  · rcases lt_trichotomy y 0 with hy | rfl | hy
    · simp [hx, hy, hx.ne, hy.ne, (mul_pos_of_neg_of_neg hx hy).not_gt]
    · simp
    · simp [hx, hx.ne, hy.ne', hy.not_gt, mul_neg_of_neg_of_pos hx hy]
  · simp
  · rcases lt_trichotomy y 0 with hy | rfl | hy
    · simp [hy, hy.ne, hx.ne', hx.not_gt, mul_neg_of_pos_of_neg hx hy]
    · simp
    · simp [hx.ne', hy.ne', hx.not_gt, hy.not_gt, (mul_pos hx hy).not_gt]

/-- A product has the sign that its factors make up. -/
theorem negative?_mul :
    negative? (a * b) = (negative? a).bind fun s ↦ (negative? b).map fun t ↦ s != t := by
  have hinfinite (s : Bool) (c : Exact) :
      negative? (infinite s * c) = (negative? c).map fun t ↦ s != t := by
    rw [infinite_mul]
    cases negative? c <;> rfl
  cases a with
  | nan =>
    rw [nan_mul]
    rfl
  | infinite s => exact hinfinite s b
  | number x =>
    cases b with
    | number y => exact negative?_mul_number x y
    | nan => 
      rw [mul_nan]
      cases negative? (number x) <;> rfl
    | infinite t =>
      rw [Exact.mul_comm, hinfinite]
      cases negative? (number x) with
      | none => rfl
      | some s => exact congrArg some (Bool.xor_comm t s)

private theorem infinite_mul_assoc : infinite s * b * c = infinite s * (b * c) := by
  rw [infinite_mul, infinite_mul, negative?_mul]
  cases negative? b with
  | none => exact nan_mul
  | some t =>
    show infinite (s != t) * c = _
    rw [infinite_mul]
    cases negative? c with
    | none => rfl
    | some u => exact congrArg infinite (Bool.xor_assoc s t u)

/-- Factors may be grouped in any way. -/
protected theorem mul_assoc (a b c : Exact) : a * b * c = a * (b * c) := by
  cases a with
  | nan => simp
  | infinite s => exact infinite_mul_assoc
  | number x =>
    cases b with
    | nan => simp
    | infinite t =>
      calc number x * infinite t * c = infinite t * number x * c := by
            rw [Exact.mul_comm (a := number x)]
        _ = infinite t * (c * number x) := by
            rw [infinite_mul_assoc, Exact.mul_comm (b := c)]
        _ = number x * (infinite t * c) := by rw [← infinite_mul_assoc, Exact.mul_comm]
    | number y =>
      cases c with
      | nan => simp
      | infinite u =>
        calc number x * number y * infinite u = infinite u * (number y * number x) := by
              rw [Exact.mul_comm, Exact.mul_comm (a := number x)]
          _ = number x * (number y * infinite u) := by
              rw [← infinite_mul_assoc, Exact.mul_comm, Exact.mul_comm (b := number y)]
      | number z => simp [mul_assoc]

/-! ### Greatest elements -/

/-- The place of a scalar among all: what is no number comes before infinities and numbers. -/
noncomputable def height : Exact → WithBot EReal
  | number x => (x : EReal)
  | infinite s => ((if s then ⊥ else ⊤ : EReal) : WithBot EReal)
  | nan => ⊥

/-- Different scalars have different places. -/
theorem height_injective : Function.Injective height := by
  intro a b h
  cases a with
  | nan => cases b <;> simp [height] at h ⊢
  | number x =>
    cases b with
    | nan => simp [height] at h
    | number y => simpa [height] using h
    | infinite t => cases t <;> simp [height] at h
  | infinite s =>
    cases b with
    | nan => simp [height] at h
    | number y => cases s <;> simp [height] at h
    | infinite t => cases s <;> cases t <;> simp [height] at h ⊢

/-- A scalar that is a number or an infinity is below another one if it has the lower place. -/
theorem height_lt_height_iff (ha : a ≠ nan) : height a < height b ↔ a < b := by
  cases b with
  | nan => exact iff_of_false not_lt_bot (by cases a <;> exact id)
  | number y =>
    cases a with
    | nan => exact absurd rfl ha
    | number x => simp [height]
    | infinite s =>
      cases s with
      | false => exact iff_of_false (by simp [height]) (by exact nofun)
      | true => exact iff_of_true (by simp [height]) rfl
  | infinite t =>
    cases a with
    | nan => exact absurd rfl ha
    | number x =>
      cases t with
      | false => exact iff_of_true (WithBot.coe_lt_coe.mpr (EReal.coe_lt_top x)) rfl
      | true => exact iff_of_false (by simp [height]) (by exact nofun)
    | infinite s =>
      cases s with
      | false => exact iff_of_false (by simp [height]) (by exact nofun)
      | true =>
        cases t with
        | false => exact iff_of_true (WithBot.coe_lt_coe.mpr bot_lt_top) ⟨rfl, rfl⟩
        | true => exact iff_of_false (by simp [height]) (by exact nofun)

/-- Only what is no number is found to be none. -/
theorem isNan_iff : isNan a = true ↔ a = nan := by
  cases a with
  | number x => simp
  | infinite s => simp [isNan, show (infinite s == infinite s) = true from beq_self_eq_true s]
  | nan => simp [isNan, show (nan == nan) = false from rfl]

/-- The larger of two scalars has the higher place. -/
theorem height_max : height (Scalar.max a b) = max (height a) (height b) := by
  unfold Scalar.max
  split_ifs with ha hb hlt
  · rw [isNan_iff.mp ha]
    exact (bot_sup_eq _).symm
  · rw [isNan_iff.mp hb]
    exact (sup_bot_eq _).symm
  · rw [isNan_iff] at ha
    exact (max_eq_right ((height_lt_height_iff ha).mpr hlt).le).symm
  · rw [isNan_iff] at ha
    exact (max_eq_left (not_lt.mp fun h ↦ hlt ((height_lt_height_iff ha).mp h))).symm

/-- Larger scalars may be looked for in any order. -/
protected theorem max_right_comm (a b c : Exact) :
    Scalar.max (Scalar.max a b) c = Scalar.max (Scalar.max a c) b := by
  apply height_injective
  simp only [height_max, max_right_comm]

/-- What is no number is smaller than every scalar. -/
theorem nan_max : Scalar.max nan a = a := if_pos rfl

/-! ### Lists -/

variable {xs ys : List Exact}

/-- The sum does not depend on the order. -/
theorem sum_eq_of_perm (h : xs.Perm ys) : Scalar.sum xs = Scalar.sum ys := by
  apply h.foldl_eq'
  intro a _ b _ c
  rw [Exact.add_assoc, Exact.add_comm a, ← Exact.add_assoc]

/-- The product does not depend on the order. -/
theorem product_eq_of_perm (h : xs.Perm ys) : Scalar.product xs = Scalar.product ys := by
  apply h.foldl_eq'
  intro a _ b _ c
  rw [Exact.mul_assoc, Exact.mul_comm (a := a), ← Exact.mul_assoc]

/-- The greatest element does not depend on the order. -/
theorem maximum?_eq_of_perm (h : xs.Perm ys) : Scalar.maximum? xs = Scalar.maximum? ys := by
  -- The search may start from what is no number.
  have hfold (a : Exact) (as : List Exact) :
      Scalar.maximum? (a :: as) = some ((a :: as).foldl Scalar.max nan) := by
    rw [List.foldl_cons, nan_max]
    rfl
  have hall := h.foldl_eq' (f := Scalar.max) (fun a _ b _ c ↦ Exact.max_right_comm c a b) nan
  cases xs with
  | nil => rw [h.nil_eq]
  | cons x xs =>
    cases ys with
    | nil => exact absurd h.symm (List.not_perm_nil_cons x xs)
    | cons y ys => rw [hfold, hfold, hall]

end Exact

/-- Degrees are disjoined in any order. -/
theorem Disjunction.combine_eq_of_perm (op : Disjunction) {xs ys : List Exact} (h : xs.Perm ys) :
    op.combine xs = op.combine ys := by
  cases op with
  | maximum => rw [combine, combine, Exact.maximum?_eq_of_perm h]
  | probabilisticSum => rw [combine, combine, Exact.product_eq_of_perm (h.map _)]
  | boundedSum => rw [combine, combine, Exact.sum_eq_of_perm h]

end FuzzyInference
