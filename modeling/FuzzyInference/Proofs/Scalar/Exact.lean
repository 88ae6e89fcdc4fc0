import FuzzyInference.Scalar.Basic
import Mathlib.Analysis.SpecialFunctions.Pow.Real

/-!
# Exact scalars

The real numbers with two infinities and one value that is no number, and the operations of binary64
arithmetic on them without rounding. There is one zero, which divides like a positive one.
-/

namespace FuzzyInference

/-- A real number, an infinity, or no number. -/
inductive Exact where
  /-- A number. -/
  | number (x : ℝ)
  /-- An infinity. -/
  | infinite (negative : Bool)
  /-- No number. -/
  | nan

namespace Exact

/-- The sum; opposite infinities have none. -/
noncomputable def add : Exact → Exact → Exact
  | number x, number y => number (x + y)
  | number _, infinite s => infinite s
  | infinite s, number _ => infinite s
  | infinite s, infinite t => if s = t then infinite s else nan
  | _, _ => nan

/-- The opposite. -/
noncomputable def neg : Exact → Exact
  | number x => number (-x)
  | infinite s => infinite (!s)
  | nan => nan

open Classical in
/-- The infinity of sign `s`, multiplied by a number. -/
noncomputable def scaleInfinite (s : Bool) (x : ℝ) : Exact :=
  if x = 0 then nan else infinite (s != decide (x < 0))

/-- The product; zero and an infinity have none. -/
noncomputable def mul : Exact → Exact → Exact
  | number x, number y => number (x * y)
  | number x, infinite s => scaleInfinite s x
  | infinite s, number x => scaleInfinite s x
  | infinite s, infinite t => infinite (s != t)
  | _, _ => nan

open Classical in
/-- The quotient. A number divided by zero is an infinity, unless it is zero too. -/
noncomputable def div : Exact → Exact → Exact
  | number x, number y =>
    if y ≠ 0 then number (x / y) else if x = 0 then nan else infinite (decide (x < 0))
  | number _, infinite _ => number 0
  | infinite s, number y => infinite (s != decide (y < 0))
  | _, _ => nan

/-- The strict order; `nan` is below nothing and above nothing. -/
def lt : Exact → Exact → Prop
  | number x, number y => x < y
  | number _, infinite t => t = false
  | infinite s, number _ => s = true
  | infinite s, infinite t => s = true ∧ t = false
  | _, _ => False

/-- The order; `nan` is not even below itself. -/
def le : Exact → Exact → Prop
  | number x, number y => x ≤ y
  | number _, infinite t => t = false
  | infinite s, number _ => s = true
  | infinite s, infinite t => s = true ∨ t = false
  | _, _ => False

open Classical in
/-- Equality of numbers and of infinities; `nan` differs from itself. -/
noncomputable def beq : Exact → Exact → Bool
  | number x, number y => decide (x = y)
  | infinite s, infinite t => s == t
  | _, _ => false

open Classical in
/-- The power of a number to a number: an infinity if zero is raised to a negative exponent, and no
number if a negative base is raised to one that is not whole. -/
noncomputable def powNumber (x y : ℝ) : Exact :=
  if x = 0 ∧ y < 0 then infinite false
  else if x < 0 ∧ ¬ ∃ n : ℤ, y = n then nan
  else number (x ^ y)

open Classical in
/-- The power to an infinity: what the powers to ever larger exponents, or ever smaller ones, come
close to. -/
noncomputable def powInfinite (s : Bool) (x : ℝ) : Exact :=
  if |x| = 1 then number 1 else if (|x| < 1) = (s = true) then infinite false else number 0

open Classical in
/-- The power of an infinity to a number. -/
noncomputable def infinitePow (s : Bool) (y : ℝ) : Exact :=
  if y = 0 then number 1
  else if y < 0 then number 0
  else infinite (s && decide (∃ n : ℤ, y = 2 * n + 1))

open Classical in
/-- The power. A zeroth power is one, and so is every power of one. -/
noncomputable def pow : Exact → Exact → Exact
  | number x, number y => powNumber x y
  | number x, infinite s => powInfinite s x
  | infinite s, number y => infinitePow s y
  | infinite _, infinite t => if t then number 0 else infinite false
  | number x, nan => if x = 1 then number 1 else nan
  | nan, number y => if y = 0 then number 1 else nan
  | _, _ => nan

open Classical in
noncomputable instance : Scalar Exact where
  add := add
  sub x y := add x (neg y)
  mul := mul
  div := div
  neg := neg
  lt := lt
  le := le
  beq := beq
  decidableLT _ _ := propDecidable _
  decidableLE _ _ := propDecidable _
  ofNat n := number n
  ofDecimal digits exponent := number (digits * 10 ^ exponent)
  infinity := infinite false
  nan := nan
  isFinite
    | number _ => true
    | _ => false
  abs
    | number x => number |x|
    | infinite _ => infinite false
    | nan => nan
  exp
    | number x => number (Real.exp x)
    | infinite s => if s then number 0 else infinite false
    | nan => nan
  pow := pow
  ceilNat
    | number x => ⌈x⌉₊
    | _ => 0
  totalLE x y := decide (y = nan ∨ le x y)

/-! ### Numbers -/

variable {x y : ℝ} {a b c : Exact}

/-- A numeral stands for its number. -/
@[simp] theorem ofNat_eq (n : ℕ) : (OfNat.ofNat n : Exact) = number n := rfl

/-- The number nearest to a natural number is that number. -/
@[simp] theorem scalar_ofNat (n : ℕ) : (Scalar.ofNat n : Exact) = number n := rfl

/-- The sum of numbers. -/
@[simp] theorem number_add : number x + number y = number (x + y) := rfl

/-- The difference of numbers. -/
@[simp] theorem number_sub : number x - number y = number (x - y) :=
  congrArg number (sub_eq_add_neg x y).symm

/-- The product of numbers. -/
@[simp] theorem number_mul : number x * number y = number (x * y) := rfl

/-- The opposite of a number. -/
@[simp] theorem neg_number : -number x = number (-x) := rfl

/-- The quotient of numbers. -/
theorem number_div (hy : y ≠ 0) : number x / number y = number (x / y) := if_pos hy

/-- The strict order of numbers. -/
@[simp] theorem number_lt : number x < number y ↔ x < y := Iff.rfl

/-- The order of numbers. -/
@[simp] theorem number_le : number x ≤ number y ↔ x ≤ y := Iff.rfl

/-- Numbers are compared by value. -/
@[simp] theorem number_beq : (number x == number y) = decide (x = y) := by
  show beq _ _ = _
  simp only [beq]

/-- The exponential of a number. -/
@[simp] theorem exp_number : Scalar.exp (number x) = number (Real.exp x) := rfl

/-- Exactly the numbers are finite. -/
theorem isFinite_iff : Scalar.isFinite a = true ↔ ∃ x, a = number x := by
  cases a <;> simp [Scalar.isFinite]

/-- A number is no `nan`. -/
@[simp] theorem isNan_number : Scalar.isNan (number x) = false := by
  simp [Scalar.isNan]

/-- Comparison does not depend on the side. -/
protected theorem beq_comm : (a == b) = (b == a) := by
  show beq a b = beq b a
  cases a <;> cases b <;> simp [beq, eq_comm, Bool.beq_comm]

/-- What is found equal to a number is that number. -/
theorem eq_of_beq_number (h : (a == number x) = true) : a = number x := by
  cases a with
  | number y => simpa using h
  | infinite s => cases h
  | nan => cases h

/-! ### Laws without rounding -/

/-- A difference is the sum with the opposite. -/
protected theorem sub_eq_add_neg : a - b = a + -b := rfl

/-- Zero is neutral. -/
protected theorem zero_add : number 0 + a = a := by
  cases a with
  | number x => simp
  | infinite s => rfl
  | nan => rfl

/-- One is neutral. -/
protected theorem one_mul : number 1 * a = a := by
  cases a with
  | number x => simp
  | infinite s =>
    show scaleInfinite s 1 = _
    simp [scaleInfinite, not_lt.mpr zero_le_one]
  | nan => rfl

/-- A number between two terms is added to either. -/
theorem add_number_sub : a + number x - b = a + (number x - b) := by
  cases a <;> cases b <;> first | rfl | skip
  simp [add_sub_assoc]

/-- The opposite of the opposite. -/
protected theorem neg_neg : - -a = a := by
  cases a with
  | number x => simp
  | infinite s => exact congrArg infinite (Bool.not_not s)
  | nan => rfl

/-- The sign of a product may be taken from its first factor. -/
protected theorem neg_mul : -a * b = -(a * b) := by
  have hs (s : Bool) (x : ℝ) : scaleInfinite (!s) x = -scaleInfinite s x := by
    unfold scaleInfinite
    split
    · rfl
    · exact congrArg infinite (by cases s <;> simp)
  have hn (s : Bool) (x : ℝ) : scaleInfinite s (-x) = -scaleInfinite s x := by
    rcases lt_trichotomy x 0 with hx | rfl | hx
    · simp only [scaleInfinite, hx.ne, neg_eq_zero, if_false, hx, decide_true,
        (neg_pos.mpr hx).not_gt, decide_false]
      exact congrArg infinite (by cases s <;> rfl)
    · simp only [scaleInfinite, neg_zero, if_true]
      rfl
    · simp only [scaleInfinite, hx.ne', neg_eq_zero, if_false, hx.not_gt, decide_false,
        neg_lt_zero.mpr hx, decide_true]
      exact congrArg infinite (by cases s <;> rfl)
  cases a <;> cases b <;> first | rfl | skip
  · simp
  · exact hn _ _
  · exact hs _ _
  · exact congrArg infinite (by simp)

/-- The order of factors does not matter. -/
protected theorem mul_comm : a * b = b * a := by
  cases a <;> cases b <;> first | rfl | skip
  · exact congrArg number (mul_comm _ _)
  · exact congrArg infinite (Bool.xor_comm _ _)

/-- The sign of a product may be taken from its second factor. -/
protected theorem mul_neg : a * -b = -(a * b) := by
  rw [Exact.mul_comm, Exact.neg_mul, Exact.mul_comm]

/-- One less a difference from one, without the parentheses around the difference. -/
theorem one_sub_one_sub : number 1 - number 1 - a = -(number 1 - (number 1 - a)) := by
  cases a with
  | number x => simp
  | infinite s => cases s <;> rfl
  | nan => rfl

/-- What is subtracted from one can be told from the difference. -/
theorem one_sub_injective : number 1 - a = number 1 - b ↔ a = b := by
  refine ⟨fun h ↦ ?_, fun h ↦ h ▸ rfl⟩
  have hb (c : Exact) : -(number 1 - c - number 1) = c := by
    cases c with
    | number x => simp
    | infinite s => cases s <;> rfl
    | nan => rfl
  rw [← hb a, h, hb b]

/-- Only zero is its own opposite among the numbers. -/
theorem neg_eq_self_iff : -a = a ↔ a = number 0 ∨ a = nan := by
  cases a with
  | number x => simp [neg_eq_iff_add_eq_zero]
  | infinite s => cases s <;> simp [show ∀ s, -infinite s = infinite (!s) from fun _ ↦ rfl]
  | nan => simp [show -nan = nan from rfl]

/-- The second power is the square. -/
theorem pow_two : Scalar.pow a (number 2) = Scalar.square a := by
  show pow a (number 2) = a * a
  cases a with
  | number x =>
    have hn : ∃ n : ℤ, (2 : ℝ) = n := ⟨2, by norm_num⟩
    have h2 : ¬ (2 : ℝ) < 0 := by norm_num
    simp only [pow, powNumber, h2, and_false, hn, not_true_eq_false, if_false, number_mul]
    exact congrArg number (by rw [Real.rpow_two, sq])
  | infinite s =>
    have hn : ¬ ∃ n : ℤ, (2 : ℝ) = 2 * n + 1 := by
      rintro ⟨n, hn⟩
      have hz : (2 : ℤ) = 2 * n + 1 := by exact_mod_cast hn
      omega
    have h2 : ¬ (2 : ℝ) < 0 := by norm_num
    simp only [pow, infinitePow, OfNat.ofNat_ne_zero, if_false, h2, hn, decide_false,
      Bool.and_false]
    exact congrArg infinite (by simp)
  | nan => simp only [pow, OfNat.ofNat_ne_zero, if_false]; rfl

/-- A number is kept within two others by the larger and the smaller of numbers. -/
theorem min_one_max_zero :
    Scalar.min (number 1) (Scalar.max (number 0) (number x)) =
      Scalar.clamp (number 0) (number 1) (number x) := by
  unfold Scalar.clamp Scalar.max
  simp only [isNan_number, Bool.false_eq_true, if_false, number_lt]
  rcases lt_trichotomy x 0 with hx | rfl | hx
  · simp [hx, hx.not_gt, Scalar.min]
  · simp [Scalar.min]
  · rw [if_pos hx, if_neg hx.not_gt]
    simp only [Scalar.min, isNan_number, Bool.false_eq_true, if_false, number_lt]
    rcases lt_trichotomy x 1 with h1 | rfl | h1
    · simp [h1, h1.not_gt]
    · simp
    · simp [h1, h1.not_gt]

/-- The exponential plus one is no zero to divide by. -/
theorem one_div_one_add_exp :
    number 1 / (number 1 + number (Real.exp x)) = number (1 / (1 + Real.exp x)) :=
  number_div (by positivity)

end Exact

end FuzzyInference
