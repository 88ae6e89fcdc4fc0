import FuzzyInference.Proofs.Scalar.Reordering

/-!
# Dual operators

Each conjunction has a dual disjunction: the minimum the maximum, the product the probabilistic sum
and the Łukasiewicz conjunction the bounded sum. Without rounding, one less a combination is the
dual combination of the complements, whatever the degrees are: in or out of the unit interval,
infinities, or no numbers at all.
-/

namespace FuzzyInference

open Scalar

/-- The disjunction that complements turn a conjunction into. -/
def Conjunction.dual : Conjunction → Disjunction
  | minimum => .maximum
  | product => .probabilisticSum
  | lukasiewicz => .boundedSum

namespace Exact

variable {a b : Exact}

/-! ### Complements -/

/-- The opposite of a sum is the sum of the opposites. -/
protected theorem neg_add : -(a + b) = -a + -b := by
  cases a with
  | nan => rfl
  | number x =>
    cases b with
    | number y => exact congrArg number (neg_add x y)
    | infinite t | nan => rfl
  | infinite s =>
    cases b with
    | number y | nan => rfl
    | infinite t => cases s <;> cases t <;> rfl

/-- The complement of the complement. -/
theorem one_sub_one_sub_self : 1 - (1 - a) = a := by
  cases a with
  | number x => simp
  | infinite s => exact congrArg infinite (Bool.not_not s)
  | nan => rfl

/-- Complements are turned back one by one. -/
theorem map_one_sub_one_sub (ds : List Exact) : (ds.map (1 - ·)).map (1 - ·) = ds := by
  rw [List.map_map]
  exact List.map_id'' (fun _ ↦ one_sub_one_sub_self) ds

/-- The complement of no number is no number, and only that. -/
theorem isNan_one_sub : isNan (1 - a) = isNan a := by
  cases a with
  | number x => simp
  | infinite s => cases s <;> rfl
  | nan => rfl

/-- Complements are in the opposite order. -/
theorem one_sub_lt_one_sub : 1 - a < 1 - b ↔ b < a := by
  cases a with
  | nan => cases b <;> exact Iff.rfl
  | number x =>
    cases b with
    | nan => exact Iff.rfl
    | number y => simp
    | infinite t =>
      show (!t) = false ↔ t = true
      rw [Bool.not_eq_false']
  | infinite s =>
    cases b with
    | nan => exact Iff.rfl
    | number y =>
      show (!s) = true ↔ s = false
      rw [Bool.not_eq_true']
    | infinite t =>
      show (!s) = true ∧ (!t) = false ↔ t = true ∧ s = false
      rw [Bool.not_eq_true', Bool.not_eq_false', and_comm]

/-- Complements are in the opposite order, also if they may be equal. -/
theorem one_sub_le_one_sub : 1 - a ≤ 1 - b ↔ b ≤ a := by
  cases a with
  | nan => cases b <;> exact Iff.rfl
  | number x =>
    cases b with
    | nan => exact Iff.rfl
    | number y => rw [one_eq, number_sub, number_sub, number_le, number_le, sub_le_sub_iff_left]
    | infinite t =>
      show (!t) = false ↔ t = true
      rw [Bool.not_eq_false']
  | infinite s =>
    cases b with
    | nan => exact Iff.rfl
    | number y =>
      show (!s) = true ↔ s = false
      rw [Bool.not_eq_true']
    | infinite t =>
      show (!s) = true ∨ (!t) = false ↔ t = true ∨ s = false
      rw [Bool.not_eq_true', Bool.not_eq_false', or_comm]

/-- The complement of the smaller scalar is the larger complement. -/
theorem one_sub_min : 1 - Scalar.min a b = Scalar.max (1 - a) (1 - b) := by
  simp only [Scalar.min, Scalar.max, isNan_one_sub, one_sub_lt_one_sub]
  split_ifs <;> rfl

/-- The complement of the larger scalar is the smaller complement. -/
theorem one_sub_max : 1 - Scalar.max a b = Scalar.min (1 - a) (1 - b) := by
  calc 1 - Scalar.max a b
      = 1 - Scalar.max (1 - (1 - a)) (1 - (1 - b)) := by simp only [one_sub_one_sub_self]
    _ = 1 - (1 - Scalar.min (1 - a) (1 - b)) := by rw [one_sub_min]
    _ = Scalar.min (1 - a) (1 - b) := one_sub_one_sub_self

/-! ### Folds -/

instance : Std.Associative (α := Exact) (· + ·) := ⟨Exact.add_assoc⟩

instance : Std.Commutative (α := Exact) (· + ·) := ⟨Exact.add_comm⟩

/-- The complement of the least element is the greatest complement. -/
theorem map_one_sub_minimum? (ds : List Exact) :
    (minimum? ds).map (1 - ·) = maximum? (ds.map (1 - ·)) := by
  cases ds with
  | nil => rfl
  | cons d ds =>
    rw [List.map_cons, minimum?, maximum?, List.foldl_map, Option.map_some]
    exact congrArg some (List.foldl_hom (1 - ·) fun _ _ ↦ one_sub_min.symm).symm

/-- The first term of a sum may be added last. -/
theorem sum_cons (d : Exact) (ds : List Exact) : Scalar.sum (d :: ds) = d + Scalar.sum ds := by
  rw [Scalar.sum, List.foldl_cons, Exact.add_comm 0 d, Scalar.sum]
  exact List.foldl_assoc

/-- The complements of degrees add up to what the degrees leave of their number. -/
theorem sum_map_one_sub (ds : List Exact) :
    Scalar.sum (ds.map (1 - ·)) = number ds.length - Scalar.sum ds := by
  induction ds with
  | nil => simp [Scalar.sum]
  | cons d ds ih =>
    calc Scalar.sum ((d :: ds).map (1 - ·))
        = (1 + -d) + (number ds.length + -Scalar.sum ds) := by rw [List.map_cons, sum_cons, ih]; rfl
      _ = (number ds.length + 1) + (-d + -Scalar.sum ds) := by ac_rfl
      _ = number (d :: ds).length - Scalar.sum (d :: ds) := by
        rw [← Exact.neg_add, ← sum_cons, one_eq, number_add, List.length_cons, Nat.cast_succ]
        rfl

end Exact

namespace Conjunction

/-- The complement of a conjunction is the dual disjunction of the complements. -/
theorem one_sub_combine (op : Conjunction) (ds : List Exact) :
    1 - op.combine ds = op.dual.combine (ds.map (1 - ·)) := by
  cases op with
  | minimum =>
    rw [combine, dual, Disjunction.combine, ← Exact.map_one_sub_minimum?]
    cases minimum? ds <;> simp
  | product => rw [combine, dual, Disjunction.combine, Exact.map_one_sub_one_sub]
  | lukasiewicz =>
    have hclamped : 1 - (Scalar.sum ds - (Scalar.ofNat ds.length - 1)) =
        Exact.number ds.length - Scalar.sum ds := by
      calc 1 - (Scalar.sum ds - (Scalar.ofNat ds.length - 1))
          = 1 + -(Scalar.sum ds + -(Scalar.ofNat ds.length - 1)) := rfl
        _ = (1 + - -(Scalar.ofNat ds.length - 1)) + -Scalar.sum ds := by
          rw [Exact.neg_add]
          ac_rfl
        _ = Exact.number ds.length - Scalar.sum ds := by simp [Exact.sub_eq_add_neg]
    rw [combine, dual, Disjunction.combine, Exact.sum_map_one_sub, Exact.one_sub_max, hclamped]
    simp

/-- The complement of a dual disjunction is the conjunction of the complements. -/
theorem one_sub_combine_dual (op : Conjunction) (ds : List Exact) :
    1 - op.dual.combine ds = op.combine (ds.map (1 - ·)) := by
  calc 1 - op.dual.combine ds
      = 1 - op.dual.combine ((ds.map (1 - ·)).map (1 - ·)) := by rw [Exact.map_one_sub_one_sub]
    _ = 1 - (1 - op.combine (ds.map (1 - ·))) := by rw [one_sub_combine]
    _ = op.combine (ds.map (1 - ·)) := Exact.one_sub_one_sub_self

/-- A dual disjunction is the complement of the conjunction of the complements. -/
theorem combine_dual (op : Conjunction) :
    op.dual.combine = fun ds : List Exact ↦ 1 - op.combine (ds.map (1 - ·)) := by
  funext ds
  rw [← op.one_sub_combine_dual, Exact.one_sub_one_sub_self]

end Conjunction

end FuzzyInference
