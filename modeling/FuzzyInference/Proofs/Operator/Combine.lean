import FuzzyInference.Proofs.Scalar.Number

/-!
# Operators on degrees

What the operators make of numbers, as formulas over the real numbers, and two properties that no
operator loses: being a degree, and not being an infinity. Whatever is composed of degrees by
operators, of any width and depth, therefore is a degree.
-/

namespace FuzzyInference

/-- A degree is a scalar between zero and one. -/
def Scalar.IsDegree {α : Type} [Scalar α] (d : α) : Prop := 0 ≤ d ∧ d ≤ 1

/-- A number, or no number, but no infinity. -/
def Exact.NotInfinite (a : Exact) : Prop := ∀ negative, a ≠ infinite negative

/-! ### Nothing to combine -/

/-- Scalars in which the neutral degrees are what rules without effect come to. -/
class Scalar.NeutralDegrees (α : Type) [Scalar α] : Prop where
  /-- Nothing is left of one without one. -/
  one_sub_one : (1 : α) - 1 = 0
  /-- The smaller one of one and zero is zero. -/
  min_one_zero : Scalar.min (1 : α) 0 = 0

instance : Scalar.NeutralDegrees Exact where
  one_sub_one := by simp
  min_one_zero := by simp [Scalar.min]

/-- A disjunction of no degrees is zero. -/
theorem Disjunction.combine_nil {α : Type} [Scalar α] [Scalar.NeutralDegrees α] (op : Disjunction) :
    op.combine ([] : List α) = 0 := by
  cases op with
  | maximum => rfl
  | probabilisticSum => exact Scalar.NeutralDegrees.one_sub_one
  | boundedSum => exact Scalar.NeutralDegrees.min_one_zero

/-! ### Formulas -/

/-- The conjunction of real degrees. -/
noncomputable def Conjunction.value (op : Conjunction) (ds : List ℝ) : ℝ :=
  match op with
  | minimum => ds.min?.getD 1
  | product => ds.prod
  | lukasiewicz => max 0 (ds.sum - (ds.length - 1))

/-- The disjunction of real degrees. -/
noncomputable def Disjunction.value (op : Disjunction) (ds : List ℝ) : ℝ :=
  match op with
  | maximum => ds.max?.getD 0
  | probabilisticSum => 1 - (ds.map (1 - ·)).prod
  | boundedSum => min 1 ds.sum

/-- The membership of a real degree in a conclusion that is drawn to a real degree. -/
noncomputable def Implication.value (op : Implication) (d m : ℝ) : ℝ :=
  match op with
  | minimum => min d m
  | product => d * m

section Formulas

open Exact

/-- Numbers are conjoined by the formula. -/
theorem Conjunction.combine_map_number (op : Conjunction) (ds : List ℝ) :
    op.combine (ds.map number) = number (op.value ds) := by
  cases op with
  | minimum =>
    rw [combine, value, minimum?_map_number]
    cases ds.min? <;> simp
  | product => rw [combine, value, product_map_number]
  | lukasiewicz => simp [combine, value, sum_map_number]

/-- Numbers are disjoined by the formula. -/
theorem Disjunction.combine_map_number (op : Disjunction) (ds : List ℝ) :
    op.combine (ds.map number) = number (op.value ds) := by
  cases op with
  | maximum =>
    rw [combine, value, maximum?_map_number]
    cases ds.max? <;> simp
  | probabilisticSum =>
    have hmap : (ds.map number).map (1 - ·) = (ds.map (1 - ·)).map number := by simp
    rw [combine, value, hmap, product_map_number]
    simp
  | boundedSum => simp [combine, value, sum_map_number]

/-- Numbers are implicated by the formula. -/
theorem Implication.apply_number (op : Implication) (d m : ℝ) :
    op.apply (number d) (number m) = number (op.value d m) := by
  cases op <;> simp [apply, value]

end Formulas

/-! ### What operators keep -/

namespace Scalar

variable {α : Type} [Scalar α] {P : α → Prop}

/-- A property of degrees that no operator loses. -/
structure Kept (P : α → Prop) : Prop where
  /-- A complement keeps it. -/
  complement {d : α} : P d → P (1 - d)
  /-- A scaled degree keeps it. -/
  scale {d e : α} : P d → P e → P (d * e)
  /-- A conclusion keeps it. -/
  implication (op : Implication) {d m : α} : P d → P m → P (op.apply d m)
  /-- A conjunction keeps it. -/
  conjunction (op : Conjunction) {ds : List α} : (∀ d ∈ ds, P d) → P (op.combine ds)
  /-- A disjunction keeps it. -/
  disjunction (op : Disjunction) {ds : List α} : (∀ d ∈ ds, P d) → P (op.combine ds)

/-- The smaller of two scalars is one of them. -/
theorem min_kept {x y : α} (hx : P x) (hy : P y) : P (min x y) := by
  unfold min
  split_ifs <;> assumption

/-- The larger of two scalars is one of them. -/
theorem max_kept {x y : α} (hx : P x) (hy : P y) : P (max x y) := by
  unfold max
  split_ifs <;> assumption

/-- The least of some scalars is one of them, and a default if there are none. -/
theorem minimum?_kept {d : α} {xs : List α} (hd : xs = [] → P d) (hxs : ∀ x ∈ xs, P x) :
    P ((minimum? xs).getD d) := by
  cases xs with
  | nil => exact hd rfl
  | cons x xs =>
    rw [List.forall_mem_cons] at hxs
    exact List.foldlRecOn xs min hxs.1 fun _ h y hy ↦ min_kept h (hxs.2 y hy)

/-- The greatest of some scalars is one of them, and a default if there are none. -/
theorem maximum?_kept {d : α} {xs : List α} (hd : xs = [] → P d) (hxs : ∀ x ∈ xs, P x) :
    P ((maximum? xs).getD d) := by
  cases xs with
  | nil => exact hd rfl
  | cons x xs =>
    rw [List.forall_mem_cons] at hxs
    exact List.foldlRecOn xs max hxs.1 fun _ h y hy ↦ max_kept h (hxs.2 y hy)

/-- What all natural numbers have and sums, differences and products keep, no operator loses. -/
theorem Kept.of_arithmetic (hnat : ∀ n, P (ofNat n)) (hadd : ∀ x y, P x → P y → P (x + y))
    (hsub : ∀ x y, P x → P y → P (x - y)) (hmul : ∀ x y, P x → P y → P (x * y)) : Kept P := by
  have hsum {ds : List α} (hds : ∀ d ∈ ds, P d) : P (sum ds) :=
    List.foldlRecOn ds _ (hnat 0) fun x hx d hd ↦ hadd x d hx (hds d hd)
  have hproduct {ds : List α} (hds : ∀ d ∈ ds, P d) : P (product ds) :=
    List.foldlRecOn ds _ (hnat 1) fun x hx d hd ↦ hmul x d hx (hds d hd)
  constructor
  · exact hsub _ _ (hnat 1)
  · exact hmul _ _
  · intro op d m hd hm
    cases op with
    | minimum => exact min_kept hd hm
    | product => exact hmul _ _ hd hm
  · intro op ds hds
    cases op with
    | minimum => exact minimum?_kept (fun _ ↦ hnat 1) hds
    | product => exact hproduct hds
    | lukasiewicz =>
      exact max_kept (hnat 0) (hsub _ _ (hsum hds) (hsub _ _ (hnat _) (hnat 1)))
  · intro op ds hds
    cases op with
    | maximum => exact maximum?_kept (fun _ ↦ hnat 0) hds
    | probabilisticSum =>
      apply hsub _ _ (hnat 1) (hproduct _)
      rw [List.forall_mem_map]
      exact fun d hd ↦ hsub _ _ (hnat 1) (hds d hd)
    | boundedSum => exact min_kept (hnat 1) (hsum hds)

end Scalar

/-! ### Degrees in the unit interval -/

section UnitInterval

variable {ds : List ℝ}

private theorem prod_mem (h : ∀ d ∈ ds, 0 ≤ d ∧ d ≤ 1) : 0 ≤ ds.prod ∧ ds.prod ≤ 1 := by
  induction ds with
  | nil => simp
  | cons d ds ih =>
    rw [List.forall_mem_cons] at h
    obtain ⟨⟨h0, h1⟩, hds⟩ := h
    obtain ⟨hp0, hp1⟩ := ih hds
    rw [List.prod_cons]
    exact ⟨mul_nonneg h0 hp0, mul_le_one₀ h1 hp0 hp1⟩

/-- The conjunction of degrees is a degree. -/
theorem Conjunction.value_mem (op : Conjunction) (h : ∀ d ∈ ds, 0 ≤ d ∧ d ≤ 1) :
    0 ≤ op.value ds ∧ op.value ds ≤ 1 := by
  cases op with
  | minimum =>
    rw [value]
    cases hm : ds.min? with
    | none => simp
    | some m => exact h m (List.min?_mem hm)
  | product => exact prod_mem h
  | lukasiewicz =>
    -- Every degree adds at most one, and one is taken off for each but the last.
    have hsum : ds.sum ≤ ds.length := by
      simpa using List.sum_le_card_nsmul ds 1 fun d hd ↦ (h d hd).2
    exact ⟨le_max_left _ _, max_le zero_le_one (by linarith)⟩

/-- The disjunction of degrees is a degree. -/
theorem Disjunction.value_mem (op : Disjunction) (h : ∀ d ∈ ds, 0 ≤ d ∧ d ≤ 1) :
    0 ≤ op.value ds ∧ op.value ds ≤ 1 := by
  cases op with
  | maximum =>
    rw [value]
    cases hm : ds.max? with
    | none => simp
    | some m => exact h m (List.max?_mem hm)
  | probabilisticSum =>
    obtain ⟨hp0, hp1⟩ : 0 ≤ (ds.map (1 - ·)).prod ∧ (ds.map (1 - ·)).prod ≤ 1 := by
      apply prod_mem
      rw [List.forall_mem_map]
      intro d hd
      exact ⟨sub_nonneg.mpr (h d hd).2, sub_le_self 1 (h d hd).1⟩
    exact ⟨sub_nonneg.mpr hp1, sub_le_self 1 hp0⟩
  | boundedSum =>
    have hsum : 0 ≤ ds.sum := List.sum_nonneg fun d hd ↦ (h d hd).1
    exact ⟨le_min zero_le_one hsum, min_le_left _ _⟩

/-- A conclusion that is drawn to a degree has degrees. -/
theorem Implication.value_mem (op : Implication) {d m : ℝ} (hd : 0 ≤ d ∧ d ≤ 1)
    (hm : 0 ≤ m ∧ m ≤ 1) : 0 ≤ op.value d m ∧ op.value d m ≤ 1 := by
  cases op with
  | minimum => exact ⟨le_min hd.1 hm.1, min_le_of_left_le hd.2⟩
  | product => exact ⟨mul_nonneg hd.1 hm.1, mul_le_one₀ hd.2 hm.1 hm.2⟩

end UnitInterval

namespace Exact

open Scalar

/-- The degrees are the real numbers of the unit interval. -/
theorem isDegree_iff {a : Exact} : IsDegree a ↔ ∃ d, (0 ≤ d ∧ d ≤ 1) ∧ a = number d := by
  constructor
  · rintro ⟨h0, h1⟩
    cases a with
    | number d => exact ⟨d, by simpa using And.intro h0 h1, rfl⟩
    | infinite s =>
      cases s with
      | false => cases h1
      | true => cases h0
    | nan => cases h0
  · rintro ⟨d, hd, rfl⟩
    simpa [IsDegree] using hd

/-- A number is a degree exactly if it is in the unit interval. -/
@[simp] theorem isDegree_number {d : ℝ} : IsDegree (number d) ↔ 0 ≤ d ∧ d ≤ 1 := by
  simp [IsDegree]

/-- Zero is a degree. -/
theorem isDegree_zero : IsDegree (0 : Exact) := by simp [IsDegree]

/-- One is a degree. -/
theorem isDegree_one : IsDegree (1 : Exact) := by simp [IsDegree]

/-- No operator leads out of the unit interval. -/
theorem kept_isDegree : Kept (IsDegree (α := Exact)) := by
  constructor
  · intro d hd
    obtain ⟨x, hx, rfl⟩ := isDegree_iff.mp hd
    simpa [and_comm] using hx
  · intro d e hd he
    obtain ⟨x, hx, rfl⟩ := isDegree_iff.mp hd
    obtain ⟨y, hy, rfl⟩ := isDegree_iff.mp he
    rw [number_mul, isDegree_number]
    exact ⟨mul_nonneg hx.1 hy.1, mul_le_one₀ hx.2 hy.1 hy.2⟩
  · intro op d m hd hm
    obtain ⟨x, hx, rfl⟩ := isDegree_iff.mp hd
    obtain ⟨y, hy, rfl⟩ := isDegree_iff.mp hm
    rw [op.apply_number, isDegree_number]
    exact op.value_mem hx hy
  · intro op ds hds
    obtain ⟨xs, hxs, rfl⟩ := exists_map_number fun d hd ↦ isDegree_iff.mp (hds d hd)
    rw [op.combine_map_number, isDegree_number]
    exact op.value_mem hxs
  · intro op ds hds
    obtain ⟨xs, hxs, rfl⟩ := exists_map_number fun d hd ↦ isDegree_iff.mp (hds d hd)
    rw [op.combine_map_number, isDegree_number]
    exact op.value_mem hxs

/-! ### Infinities -/

/-- A number is no infinity. -/
@[simp] theorem notInfinite_number (x : ℝ) : NotInfinite (number x) := nofun

/-- What is no number is no infinity. -/
@[simp] theorem notInfinite_nan : NotInfinite nan := nofun

/-- A degree is no infinity. -/
theorem notInfinite_of_isDegree {a : Exact} (h : IsDegree a) : NotInfinite a := by
  obtain ⟨x, -, rfl⟩ := isDegree_iff.mp h
  exact notInfinite_number x

/-- What is no infinity is a number, or no number. -/
theorem notInfinite_iff {a : Exact} : NotInfinite a ↔ (∃ x, a = number x) ∨ a = nan := by
  cases a <;> simp [NotInfinite]

/-- What is no infinity has no infinite sum, difference or product. -/
theorem notInfinite_arithmetic {a b : Exact} (ha : NotInfinite a) (hb : NotInfinite b) :
    NotInfinite (a + b) ∧ NotInfinite (a - b) ∧ NotInfinite (a * b) := by
  rcases notInfinite_iff.mp ha with ⟨x, rfl⟩ | rfl
  · rcases notInfinite_iff.mp hb with ⟨y, rfl⟩ | rfl
    · exact ⟨nofun, nofun, nofun⟩
    · exact ⟨nofun, nofun, nofun⟩
  · rcases notInfinite_iff.mp hb with ⟨y, rfl⟩ | rfl
    · exact ⟨nofun, nofun, nofun⟩
    · exact ⟨nofun, nofun, nofun⟩

/-- What is no infinity leads to none if it is divided by anything but zero. -/
theorem notInfinite_div {a b : Exact} (ha : NotInfinite a) (hb : (b == 0) = false) :
    NotInfinite (a / b) := by
  rcases notInfinite_iff.mp ha with ⟨x, rfl⟩ | rfl
  · cases b with
    | number y =>
      have hy : y ≠ 0 := by simpa using hb
      rw [number_div hy]
      exact nofun
    | infinite s => exact nofun
    | nan => exact nofun
  · exact nofun

/-- No operator leads to an infinity. -/
theorem kept_notInfinite : Kept NotInfinite := by
  apply Kept.of_arithmetic
  · intro n
    exact notInfinite_number n
  · intro a b ha hb
    exact (notInfinite_arithmetic ha hb).1
  · intro a b ha hb
    exact (notInfinite_arithmetic ha hb).2.1
  · intro a b ha hb
    exact (notInfinite_arithmetic ha hb).2.2

/-- No operator leads away from the numbers. -/
theorem kept_isFinite : Kept fun a : Exact ↦ isFinite a = true := by
  simp only [isFinite_iff]
  apply Kept.of_arithmetic
  · exact fun n ↦ ⟨n, rfl⟩
  · rintro _ _ ⟨x, rfl⟩ ⟨y, rfl⟩
    exact ⟨x + y, rfl⟩
  · rintro _ _ ⟨x, rfl⟩ ⟨y, rfl⟩
    exact ⟨x - y, number_sub⟩
  · rintro _ _ ⟨x, rfl⟩ ⟨y, rfl⟩
    exact ⟨x * y, rfl⟩

end Exact

end FuzzyInference
