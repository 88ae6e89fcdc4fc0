import FuzzyInference.Proofs.Defuzzify

/-!
# The bisector

In exact arithmetic, running sums of memberships that are not negative do not decrease. So those
below half of the total come first, bisection finds the first one that is not below it, and there is
one, because the last running sum is the total.
-/

namespace FuzzyInference

open Exact Scalar

/-! ### Bisection -/

/-- Bisection finds the index up to which the predicate holds and from which on it fails. -/
theorem searchFirst_eq {p : ℕ → Bool} {low high i : ℕ} (hlow : low ≤ i) (hhigh : i ≤ high)
    (hbefore : ∀ j, low ≤ j → j < i → p j = true)
    (hbehind : ∀ j, i ≤ j → j < high → p j = false) : searchFirst p low high = i := by
  -- The index stays between the two ends of what is left to be searched.
  induction low, high using searchFirst.induct (p := p) with
  | case1 low high hlt middle hholds ih =>
    have hmiddle : middle < i := by
      by_contra hge
      rw [hbehind middle (not_lt.mp hge) (by omega)] at hholds
      cases hholds
    rw [searchFirst, if_pos hlt]
    show (if p middle = true then _ else _) = i
    rw [if_pos hholds]
    exact ih hmiddle hhigh (fun j hj ↦ hbefore j (by omega)) hbehind
  | case2 low high hlt middle hfails ih =>
    have hmiddle : i ≤ middle := by
      by_contra hgt
      exact hfails (hbefore middle (by omega) (not_le.mp hgt))
    rw [searchFirst, if_pos hlt]
    show (if p middle = true then _ else _) = i
    rw [if_neg hfails]
    exact ih hlow hmiddle hbefore fun j hj hjm ↦ hbehind j hj (by omega)
  | case3 low high hge =>
    rw [searchFirst, if_neg hge]
    omega

namespace Defuzzification

/-! ### Running sums -/

section

variable {α : Type} [Scalar α]

/-- Half of the total of some memberships, which is the last of their running sums. -/
def halfTotal (ms : List α) : α := (runningSums 0 ms).getD (ms.length - 1) 0 / 2

/-- The running sum at an index is below half of the total. -/
def belowHalf (ms : List α) (i : ℕ) : Bool := (runningSums 0 ms).getD i 0 < halfTotal ms

/-- The index of the bisector is searched for in the running sums, and kept within the list. -/
theorem bisectorIndex_eq {ms : List α} :
    bisectorIndex ms = min (searchFirst (belowHalf ms) 0 ms.length) (ms.length - 1) := by
  unfold bisectorIndex
  simp only [List.size_toArray, length_runningSums, Array.getD_eq_getD_getElem?,
    List.getElem?_toArray, ← List.getD_eq_getElem?_getD]
  rfl

end

variable {ms : List ℝ} {i j : ℕ}

/-- Running sums of real memberships, on top of a total. -/
theorem runningSums_number {total : ℝ} : runningSums (number total) (ms.map number) =
    ((List.range ms.length).map fun i ↦ total + (ms.take (i + 1)).sum).map number := by
  induction ms generalizing total with
  | nil => rfl
  | cons m ms ih =>
    rw [List.map_cons, runningSums, number_add, ih, List.length_cons, List.range_succ_eq_map]
    simp [Function.comp_def, add_assoc]

/-- The running sum at an index is the sum up to it. -/
theorem getElem_runningSums {hi : i < (runningSums 0 (ms.map number)).length} :
    (runningSums 0 (ms.map number))[i] = number (ms.take (i + 1)).sum := by
  simp [runningSums_number]

/-- The running sum at an index of a membership, looked up with a default. -/
theorem getD_runningSums (hi : i < ms.length) :
    (runningSums 0 (ms.map number)).getD i 0 = number (ms.take (i + 1)).sum := by
  have hlength : i < (runningSums 0 (ms.map number)).length := by
    rwa [length_runningSums, List.length_map]
  rw [List.getD_eq_getElem?_getD, List.getElem?_eq_getElem hlength, Option.getD_some,
    getElem_runningSums]

/-- Half of the total of real memberships. -/
theorem halfTotal_number (hne : ms ≠ []) : halfTotal (ms.map number) = number (ms.sum / 2) := by
  have hpos := List.length_pos_iff.mpr hne
  rw [halfTotal, List.length_map, getD_runningSums (by omega), List.take_of_length_le (by omega),
    two_eq, number_div two_ne_zero]

/-- Whether the sum up to an index is below half of the total. -/
theorem belowHalf_number (hi : i < ms.length) :
    belowHalf (ms.map number) i = decide ((ms.take (i + 1)).sum < ms.sum / 2) := by
  rw [belowHalf, getD_runningSums hi, halfTotal_number (List.ne_nil_of_length_pos (by omega))]
  simp

/-- Sums up to greater indices are not less. -/
theorem sum_take_mono (hms : ∀ m ∈ ms, 0 ≤ m) (hij : i ≤ j) :
    (ms.take i).sum ≤ (ms.take j).sum := by
  apply (List.take_prefix_take_left hij).sublist.sum_le_sum
  exact fun m hm ↦ hms m (List.mem_of_mem_take hm)

/-! ### The index of the bisector -/

/-- The indices up to which the memberships have a sum of at least `target`. -/
def reaching (ms : List ℝ) (target : ℝ) : Set ℕ := {i | target ≤ (ms.take (i + 1)).sum}

/-- At the last index half of the total is reached, so there is a least such index. -/
theorem exists_isLeast_reaching (hne : ms ≠ []) (hms : ∀ m ∈ ms, 0 ≤ m) :
    ∃ i < ms.length, IsLeast (reaching ms (ms.sum / 2)) i := by
  have hpos := List.length_pos_iff.mpr hne
  have hsum := List.sum_nonneg hms
  have hlast : ms.length - 1 ∈ reaching ms (ms.sum / 2) := by
    show ms.sum / 2 ≤ (ms.take (ms.length - 1 + 1)).sum
    rw [List.take_of_length_le (by omega)]
    linarith
  have hleast := isLeast_csInf ⟨_, hlast⟩
  have hle := hleast.2 hlast
  exact ⟨_, by omega, hleast⟩

/-- What is reached at an index is reached at all greater ones. -/
theorem mem_reaching_of_le {target : ℝ} (hms : ∀ m ∈ ms, 0 ≤ m) (hi : i ∈ reaching ms target)
    (hij : i ≤ j) : j ∈ reaching ms target :=
  hi.trans (sum_take_mono hms (Nat.succ_le_succ hij))

/-- The sums up to exactly the indices at which half of the total is not reached are below it. -/
theorem belowHalf_eq_true_iff (hi : i < ms.length) :
    belowHalf (ms.map number) i = true ↔ i ∉ reaching ms (ms.sum / 2) := by
  rw [belowHalf_number hi, decide_eq_true_iff, ← not_le]
  rfl

/-- Bisection finds the least index at which half of the total is reached. -/
theorem searchFirst_belowHalf (hms : ∀ m ∈ ms, 0 ≤ m) (hi : i < ms.length)
    (hleast : IsLeast (reaching ms (ms.sum / 2)) i) :
    searchFirst (belowHalf (ms.map number)) 0 ms.length = i := by
  apply searchFirst_eq (Nat.zero_le i) hi.le
  · intro j _ hji
    rw [belowHalf_eq_true_iff (hji.trans hi)]
    exact fun hj ↦ (hleast.2 hj).not_gt hji
  · intro j hij hj
    rw [← Bool.not_eq_true, belowHalf_eq_true_iff hj, not_not]
    exact mem_reaching_of_le hms hleast.1 hij

/-- So does going through the running sums one after another. -/
theorem findIdx_runningSums (hi : i < ms.length) (hleast : IsLeast (reaching ms (ms.sum / 2)) i) :
    (runningSums 0 (ms.map number)).findIdx (fun sum ↦ !decide (sum < halfTotal (ms.map number))) =
      i := by
  have hlength : (runningSums 0 (ms.map number)).length = ms.length := by
    rw [length_runningSums, List.length_map]
  have hhalf := halfTotal_number (List.ne_nil_of_length_pos (by omega) : ms ≠ [])
  rw [List.findIdx_eq (hlength.symm ▸ hi)]
  simp only [getElem_runningSums, hhalf, number_lt, Bool.not_eq_true', decide_eq_false_iff_not,
    Bool.not_eq_false', decide_eq_true_iff, not_lt]
  exact ⟨hleast.1, fun j hji ↦ not_le.mp fun hj ↦ (hleast.2 hj).not_gt hji⟩

/-- Before the least index at which half of a positive total is reached, the sum is below it. -/
theorem sum_take_lt_half (hleast : IsLeast (reaching ms (ms.sum / 2)) i) (hpos : 0 < ms.sum) :
    (ms.take i).sum < ms.sum / 2 := by
  cases i with
  | zero =>
    rw [List.take_zero, List.sum_nil]
    exact half_pos hpos
  | succ i =>
    rw [← not_le]
    intro hi
    have hle : i + 1 ≤ i := hleast.2 hi
    omega

/-- Half of a total of zero is reached at the first index. -/
theorem eq_zero_of_sum_eq_zero (hms : ∀ m ∈ ms, 0 ≤ m)
    (hleast : IsLeast (reaching ms (ms.sum / 2)) i) (hzero : ms.sum = 0) : i = 0 := by
  have hfirst : 0 ∈ reaching ms (ms.sum / 2) := by
    show ms.sum / 2 ≤ (ms.take 1).sum
    rw [hzero, zero_div]
    exact List.sum_nonneg fun m hm ↦ hms m (List.mem_of_mem_take hm)
  exact Nat.le_zero.mp (hleast.2 hfirst)

/-! ### Main result -/

/-- Of any points with as many memberships that are not negative, the bisector is the one at the
least index at which the sum of the memberships is at least half of the total. There always is such
an index, the sum before it is below half of a positive total, and for a total of zero it is the
first one. Bisection of the running sums comes to this index without having to be kept within the
list, as does going through them for the first one that is not below half. -/
theorem bisector_isLeast {points : List Exact} (hne : points ≠ [])
    (hlen : points.length = ms.length) (hms : ∀ m ∈ ms, 0 ≤ m) :
    ∃ (i : ℕ) (hi : i < points.length),
      bisector.reduce points (ms.map number) = points[i] ∧
      IsLeast (reaching ms (ms.sum / 2)) i ∧
      (0 < ms.sum → (ms.take i).sum < ms.sum / 2) ∧
      (ms.sum = 0 → i = 0) ∧
      bisectorIndex (ms.map number) = i ∧
      searchFirst (belowHalf (ms.map number)) 0 ms.length = i ∧
      (runningSums 0 (ms.map number)).findIdx
        (fun sum ↦ !decide (sum < halfTotal (ms.map number))) = i := by
  have hmne : ms ≠ [] := List.ne_nil_of_length_pos (hlen ▸ List.length_pos_iff.mpr hne)
  obtain ⟨i, hi, hleast⟩ := exists_isLeast_reaching hmne hms
  have hsearch := searchFirst_belowHalf hms hi hleast
  have hindex : bisectorIndex (ms.map number) = i := by
    rw [bisectorIndex_eq, List.length_map, hsearch]
    omega
  have hbound : i < points.length := hlen ▸ hi
  refine ⟨i, hbound, ?_, hleast, sum_take_lt_half hleast, eq_zero_of_sum_eq_zero hms hleast,
    hindex, hsearch, findIdx_runningSums hi hleast⟩
  rw [reduce, if_neg (by simpa using hne)]
  show points.getD (bisectorIndex (ms.map number)) Scalar.nan = points[i]
  rw [hindex, List.getD_eq_getElem?_getD, List.getElem?_eq_getElem hbound, Option.getD_some]

/-- Five points, the third of which is the first one up to which half of the total is reached. -/
theorem bisector_isLeast_of_five :
    (∀ m ∈ ([0, 1 / 2, 1, 1, 0] : List ℝ), 0 ≤ m) ∧
      bisector.reduce ([0, 1, 2, 3, 4].map number) ([0, 1 / 2, 1, 1, 0].map number) = number 2 := by
  have hms : ∀ m ∈ ([0, 1 / 2, 1, 1, 0] : List ℝ), 0 ≤ m := by norm_num
  have hne : ([0, 1, 2, 3, 4] : List ℝ).map number ≠ [] := List.cons_ne_nil _ _
  obtain ⟨i, hi, hresult, hleast, -⟩ := bisector_isLeast hne rfl hms
  have hreached : 2 ∈ reaching [0, 1 / 2, 1, 1, 0] (([0, 1 / 2, 1, 1, 0] : List ℝ).sum / 2) := by
    norm_num [reaching]
  have hbefore : 1 ∉ reaching [0, 1 / 2, 1, 1, 0] (([0, 1 / 2, 1, 1, 0] : List ℝ).sum / 2) := by
    norm_num [reaching]
  have hupper : i ≤ 2 := hleast.2 hreached
  have hlower : ¬ i ≤ 1 := fun h ↦ hbefore (mem_reaching_of_le hms hleast.1 h)
  obtain rfl : i = 2 := by omega
  exact ⟨hms, hresult⟩

end Defuzzification

end FuzzyInference
