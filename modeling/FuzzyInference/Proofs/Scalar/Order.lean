import FuzzyInference.Proofs.Scalar.Reordering
import FuzzyInference.Scalar.Machine
import Mathlib.Data.Prod.Lex

/-!
# The order of scalars

Scalars that are numbers, infinities among them, are totally ordered, be they machine numbers or
exact ones. What is not below a finite scalar is therefore at least that scalar, and checks that
look for a knot below its predecessor accept exactly the lists that ascend.
-/

namespace FuzzyInference.Scalar

/-- Scalars whose finite values are totally ordered. -/
class OrderedFinite (α : Type) [Scalar α] : Prop where
  /-- Of two finite scalars, one is at most the other unless that is below it. -/
  not_lt_iff {a b : α} : isFinite a = true → isFinite b = true → (¬ b < a ↔ a ≤ b)

/-- Scalars that are totally ordered, but for what is no number. -/
class OrderedNumbers (α : Type) [Scalar α] : Prop where
  /-- The order is transitive. -/
  le_trans {a b c : α} : a ≤ b → b ≤ c → a ≤ c
  /-- Of two numbers, one is at most the other. -/
  le_total {a b : α} : isNan a = false → isNan b = false → a ≤ b ∨ b ≤ a
  /-- Of two numbers, one is at most the other unless that is below it. -/
  le_iff_not_lt {a b : α} : isNan a = false → isNan b = false → (a ≤ b ↔ ¬ b < a)

namespace OrderedNumbers

variable {α : Type} [Scalar α] [OrderedNumbers α] {a b c : α}

/-- A number is at most itself. -/
theorem le_refl (ha : isNan a = false) : a ≤ a := (le_total ha ha).elim id id

/-- A number below another one is at most that. -/
theorem le_of_lt (ha : isNan a = false) (hb : isNan b = false) (h : a < b) : a ≤ b := by
  refine (le_total ha hb).resolve_right ?_
  intro hle
  exact (le_iff_not_lt hb ha).mp hle h

/-- What is at most a number below a third one is below that. -/
theorem lt_of_le_of_lt (ha : isNan a = false) (hb : isNan b = false) (hc : isNan c = false)
    (hab : a ≤ b) (hbc : b < c) : a < c := by
  by_contra hnot
  have hca : c ≤ a := (le_iff_not_lt hc ha).mpr hnot
  exact (le_iff_not_lt hc hb).mp (le_trans hca hab) hbc

omit [OrderedNumbers α] in
/-- Scalars that have places in a total order, by which numbers are compared. -/
theorem of_place {β : Type} [LinearOrder β] (place : α → β)
    (hle : ∀ a b : α, a ≤ b ↔ (isNan a = false ∧ isNan b = false) ∧ place a ≤ place b)
    (hlt : ∀ a b : α, isNan a = false → isNan b = false → (a < b ↔ place a < place b)) :
    OrderedNumbers α where
  le_trans hab hbc := by
    rw [hle] at hab hbc ⊢
    exact ⟨⟨hab.1.1, hbc.1.2⟩, hab.2.trans hbc.2⟩
  le_total ha hb := by
    rw [hle, hle]
    exact (LinearOrder.le_total _ _).imp (fun h ↦ ⟨⟨ha, hb⟩, h⟩) (fun h ↦ ⟨⟨hb, ha⟩, h⟩)
  le_iff_not_lt ha hb := by
    rw [hle, hlt _ _ hb ha, not_lt]
    exact and_iff_right ⟨ha, hb⟩

end OrderedNumbers

/-! ### Machine numbers -/

section Machine

open Float.Model UnpackedFloat

/-- The place of an unpacked float among all: its side, its exponent and its mantissa, the latter
two turned around on the negative side. -/
private def place : UnpackedFloat → ℤ ×ₗ ℤ ×ₗ ℤ
  | .infinity .negative => toLex (-2, toLex (0, 0))
  | finite .negative m e _ => toLex (-1, toLex (-e, -m))
  | zero _ | notANumber => toLex (0, toLex (0, 0))
  | finite .positive m e _ => toLex (1, toLex (e, m))
  | .infinity .positive => toLex (2, toLex (0, 0))

private theorem compare_neg (i j : ℤ) : compare (-i) (-j) = compare j i := by
  simp only [compare, compareOfLessAndEq, Int.neg_lt_neg_iff, neg_inj, eq_comm]

private theorem compare_natCast (m n : ℕ) : compare (m : ℤ) (n : ℤ) = compare m n := by
  simp [compare, compareOfLessAndEq]

private theorem compare_finite {s : Sign} {m m' : ℕ} {e e' : ℤ} (hm : 0 < m) (hm' : 0 < m') :
    (UnpackedFloat.finite s m e hm).compare (.finite s m' e' hm') =
      some (compare (place (.finite s m e hm)) (place (.finite s m' e' hm'))) := by
  cases s with
  | positive =>
    show some ((compare e e').then (compare m m')) =
      some ((compare e e').then (compare (m : ℤ) (m' : ℤ)))
    rw [compare_natCast]
  | negative =>
    show some ((compare e e').then (compare m m')).swap =
      some ((compare (-e) (-e')).then (compare (-(m : ℤ)) (-(m' : ℤ))))
    rw [compare_neg, compare_neg, compare_natCast, Ordering.swap_then, ← Std.OrientedCmp.eq_swap,
      ← Std.OrientedCmp.eq_swap]

private theorem compare_eq {a b : UnpackedFloat} (ha : a ≠ notANumber) (hb : b ≠ notANumber) :
    a.compare b = some (compare (place a) (place b)) := by
  cases a with
  | notANumber => exact absurd rfl ha
  | infinity s =>
    cases b with
    | notANumber => exact absurd rfl hb
    | infinity t => cases s <;> cases t <;> rfl
    | zero t => cases s <;> rfl
    | finite t => cases s <;> cases t <;> rfl
  | zero s =>
    cases b with
    | notANumber => exact absurd rfl hb
    | infinity t => cases t <;> rfl
    | zero t => rfl
    | finite t => cases t <;> rfl
  | finite s m e hm =>
    cases b with
    | notANumber => exact absurd rfl hb
    | infinity t => cases s <;> cases t <;> rfl
    | zero t => cases s <;> rfl
    | finite t m' e' hm' =>
      by_cases hst : s = t
      · subst hst
        exact compare_finite hm hm'
      · cases s <;> cases t <;> first | rfl | exact absurd rfl hst

private theorem ne_notANumber_of_compare {a b : UnpackedFloat} {o : Ordering}
    (h : a.compare b = some o) : a ≠ notANumber ∧ b ≠ notANumber := by
  constructor
  · rintro rfl
    cases h
  · rintro rfl
    cases a <;> cases h

private theorem isNan_eq_false_iff {x : Float} :
    isNan x = false ↔ x.toModel.unpack ≠ notANumber := by
  have hbeq : (x == x) = (x.toModel.unpack.compare x.toModel.unpack == some .eq) := rfl
  rw [isNan, Bool.not_eq_false', hbeq, beq_iff_eq]
  constructor
  · intro h
    exact (ne_notANumber_of_compare h).1
  · intro h
    exact (compare_eq h h).trans (congrArg some (compare_eq_iff_eq.mpr rfl))

private theorem float_le_iff {x y : Float} :
    x ≤ y ↔ (isNan x = false ∧ isNan y = false) ∧
      place x.toModel.unpack ≤ place y.toModel.unpack := by
  have hle : x ≤ y ↔ (x.toModel.unpack.compare y.toModel.unpack).any (·.isLE) = true :=
    ⟨of_decide_eq_true, decide_eq_true⟩
  rw [hle, isNan_eq_false_iff, isNan_eq_false_iff, Option.any_eq_true]
  constructor
  · rintro ⟨o, ho, hisLE⟩
    obtain ⟨hx, hy⟩ := ne_notANumber_of_compare ho
    rw [compare_eq hx hy, Option.some.injEq] at ho
    subst ho
    exact ⟨⟨hx, hy⟩, compare_le_iff_le.mp (Ordering.isLE_iff_ne_gt.mp hisLE)⟩
  · rintro ⟨⟨hx, hy⟩, h⟩
    exact ⟨_, compare_eq hx hy, Ordering.isLE_iff_ne_gt.mpr (compare_le_iff_le.mpr h)⟩

private theorem float_lt_iff {x y : Float} (hx : isNan x = false) (hy : isNan y = false) :
    x < y ↔ place x.toModel.unpack < place y.toModel.unpack := by
  have hlt : x < y ↔ (x.toModel.unpack.compare y.toModel.unpack == some .lt) = true :=
    ⟨of_decide_eq_true, decide_eq_true⟩
  rw [isNan_eq_false_iff] at hx hy
  rw [hlt, compare_eq hx hy, beq_iff_eq, Option.some.injEq, compare_lt_iff_lt]

instance : OrderedNumbers Float :=
  .of_place (fun x ↦ place x.toModel.unpack) (fun _ _ ↦ float_le_iff) fun _ _ ↦ float_lt_iff

instance : OrderedFinite Float where
  not_lt_iff ha hb := by
    have hnumber {x : Float} (hx : isFinite x = true) : isNan x = false := by
      rw [isNan_eq_false_iff]
      intro hnan
      have hx : x.toModel.unpack.isFinite = true := hx
      rw [hnan] at hx
      cases hx
    exact (OrderedNumbers.le_iff_not_lt (hnumber ha) (hnumber hb)).symm

end Machine

/-! ### Exact scalars -/

private theorem exact_not_lt_iff {a b : Exact} (ha : a ≠ .nan) (hb : b ≠ .nan) :
    ¬ b < a ↔ a ≤ b := by
  cases a with
  | nan => exact absurd rfl ha
  | number x =>
    cases b with
    | nan => exact absurd rfl hb
    | number y => rw [Exact.number_lt, Exact.number_le, not_lt]
    | infinite t => exact iff_of_eq (Bool.not_eq_true t)
  | infinite s =>
    cases b with
    | nan => exact absurd rfl hb
    | number y => exact iff_of_eq (Bool.not_eq_false s)
    | infinite t =>
      show ¬ (t = true ∧ s = false) ↔ s = true ∨ t = false
      cases s <;> cases t <;> decide

private theorem exact_le_iff {a b : Exact} :
    a ≤ b ↔ (isNan a = false ∧ isNan b = false) ∧ a.height ≤ b.height := by
  rw [← Bool.not_eq_true, ← Bool.not_eq_true, Exact.isNan_iff, Exact.isNan_iff]
  constructor
  · intro h
    have ha : a ≠ .nan := by
      rintro rfl
      exact h
    have hb : b ≠ .nan := by
      rintro rfl
      cases a <;> exact h
    rw [← exact_not_lt_iff ha hb, ← Exact.height_lt_height_iff hb, not_lt] at h
    exact ⟨⟨ha, hb⟩, h⟩
  · rintro ⟨⟨ha, hb⟩, h⟩
    rwa [← exact_not_lt_iff ha hb, ← Exact.height_lt_height_iff hb, not_lt]

instance : OrderedNumbers Exact := by
  apply OrderedNumbers.of_place Exact.height fun _ _ ↦ exact_le_iff
  intro a b ha hb
  apply (Exact.height_lt_height_iff _).symm
  rintro rfl
  cases ha.symm.trans (Exact.isNan_iff.mpr rfl)

instance : OrderedFinite Exact where
  not_lt_iff ha hb := by
    obtain ⟨x, rfl⟩ := Exact.isFinite_iff.mp ha
    obtain ⟨y, rfl⟩ := Exact.isFinite_iff.mp hb
    rw [Exact.number_lt, Exact.number_le, not_lt]

end FuzzyInference.Scalar
