import FuzzyInference.Proofs.FuzzySystem.WellFormed
import FuzzyInference.Proofs.Mesh.Walk
import FuzzyInference.Proofs.Scalar.Number

/-!
# Points of meshes

In exact arithmetic a counted mesh holds the points at equal distances from the lower bound to the
upper one, and a stepped mesh exactly the multiples of the step that stay below the upper one. All
points are within the bounds, they ascend, and only a mesh of no points is empty.
-/

namespace FuzzyInference

open Exact

namespace Mesh

variable {low high step : ℝ} {n : ℕ}

/-- The point that is as many distances behind the lower bound as its index says. -/
theorem low_add_spacing_mul {i : ℕ} (hi : i < n) :
    number low + spacing (number low) (number high) n * Scalar.ofNat i =
      number (low + (high - low) / (n - 1) * i) := by
  by_cases hn : 1 < n
  · have hcast : ((n - 1 : ℕ) : ℝ) = n - 1 := by
      rw [Nat.cast_sub hn.le, Nat.cast_one]
    have hne : (n : ℝ) - 1 ≠ 0 := by
      rw [← hcast, Nat.cast_ne_zero]
      omega
    rw [spacing, if_pos hn, scalar_ofNat, scalar_ofNat, number_sub, hcast, number_div hne,
      number_mul, number_add]
  · obtain rfl : i = 0 := by omega
    simp [spacing, hn]

/-- As many distances behind the lower bound as there are between the points is the upper bound. -/
theorem low_add_all_spacings {i : ℕ} (hi : i ≠ 0) :
    low + (high - low) / ((i + 1 : ℕ) - 1) * i = high := by
  have hne : (i : ℝ) ≠ 0 := Nat.cast_ne_zero.mpr hi
  push_cast
  rw [add_sub_cancel_right, div_mul_cancel₀ _ hne, add_sub_cancel]

/-- The point at index `i` of a counted mesh; that the last one is the upper bound makes no
difference. -/
theorem countedPoint_number {i : ℕ} (hi : i < n) :
    countedPoint (number low) (number high) n i = number (low + (high - low) / (n - 1) * i) := by
  rw [countedPoint]
  split_ifs with hlast
  · obtain ⟨rfl, hn⟩ := hlast
    rw [low_add_all_spacings (by omega)]
  · exact low_add_spacing_mul hi

/-- A counted mesh. -/
theorem counted_number : counted (number low) (number high) n =
    ((List.range n).map fun i : ℕ ↦ low + (high - low) / (n - 1) * i).map number := by
  rw [counted_eq_map, List.map_map]
  apply List.map_congr_left
  intro i hi
  exact countedPoint_number (List.mem_range.mp hi)

/-- A stepped mesh. -/
theorem stepped_number (hstep : 0 < step) : stepped (number low) (number high) (number step) =
    ((List.range ⌈(high - low) / step⌉₊).map fun i : ℕ ↦ low + step * i).map number := by
  have hlength : steppedLength (number low) (number high) (number step) =
      ⌈(high - low) / step⌉₊ := by
    rw [steppedLength, number_sub, number_div_of_pos hstep]
    rfl
  rw [stepped_eq_map, hlength, List.map_map]
  rfl

/-- The points of a counted mesh are within the bounds. -/
theorem counted_within (hlh : low ≤ high) {i : ℕ} (hi : i < n) :
    low ≤ low + (high - low) / (n - 1) * i ∧ low + (high - low) / (n - 1) * i ≤ high := by
  have hin : (i : ℝ) ≤ n - 1 := by
    have hcast : (i : ℝ) + 1 ≤ n := by exact_mod_cast hi
    linarith
  have hi0 : (0 : ℝ) ≤ i := i.cast_nonneg
  have hn : (0 : ℝ) ≤ n - 1 := hi0.trans hin
  have hwidth : 0 ≤ high - low := sub_nonneg.mpr hlh
  have hpos : 0 ≤ (high - low) / (n - 1) * i := mul_nonneg (div_nonneg hwidth hn) hi0
  have hspan : (high - low) / (n - 1) * i ≤ high - low := by
    rw [div_mul_eq_mul_div]
    exact div_le_of_le_mul₀ hn hwidth (mul_le_mul_of_nonneg_left hin hwidth)
  constructor
  · linarith
  · linarith

/-- A multiple of the step is below the upper bound exactly when its number is below the length of
the mesh. -/
theorem lt_ceil_iff (hstep : 0 < step) {i : ℕ} :
    i < ⌈(high - low) / step⌉₊ ↔ low + step * i < high := by
  rw [Nat.lt_ceil, lt_div_iff₀ hstep, lt_sub_iff_add_lt', mul_comm]

/-- The points of a stepped mesh are within the bounds. -/
theorem stepped_within (hstep : 0 < step) {i : ℕ} (hi : i < ⌈(high - low) / step⌉₊) :
    low ≤ low + step * i ∧ low + step * i < high := by
  have hpos : 0 ≤ step * i := by positivity
  exact ⟨le_add_of_nonneg_right hpos, (lt_ceil_iff hstep).mp hi⟩

/-- The points of a counted mesh ascend. -/
theorem counted_ascends (hlh : low < high) :
    ((List.range n).map fun i : ℕ ↦ low + (high - low) / (n - 1) * i).Pairwise (· < ·) := by
  rw [List.pairwise_map]
  apply List.pairwise_lt_range.imp_of_mem
  intro i j _ hj hij
  rw [List.mem_range] at hj
  have hn : (1 : ℝ) < n := by
    rw [Nat.one_lt_cast]
    omega
  have hspacing : 0 < (high - low) / (n - 1) := div_pos (by linarith) (by linarith)
  gcongr

/-- The points of a stepped mesh ascend. -/
theorem stepped_ascends (hstep : 0 < step) :
    ((List.range n).map fun i : ℕ ↦ low + step * i).Pairwise (· < ·) := by
  rw [List.pairwise_map]
  apply List.pairwise_lt_range.imp
  intro i j hij
  gcongr

/-! ### All points of a mesh -/

/-- What the points of a mesh of at least two points have to be. -/
structure EvenlySpaced (low high : ℝ) (n : ℕ) (xs : List ℝ) : Prop where
  /-- There are as many points as asked for. -/
  length_eq : xs.length = n
  /-- Neighbours are at the same distance. -/
  getElem_eq : ∀ (i : ℕ) (hi : i < xs.length), xs[i] = low + i * (high - low) / (n - 1)
  /-- The points ascend. -/
  ascends : xs.Pairwise (· < ·)
  /-- The first point is the lower bound. -/
  head?_eq : xs.head? = some low
  /-- The last point is the upper bound. -/
  getLast?_eq : xs.getLast? = some high

/-- What the points of a mesh of multiples of a step have to be. -/
structure MultiplesBelow (low high step : ℝ) (xs : List ℝ) : Prop where
  /-- The points are all multiples below the upper bound, and nothing else. -/
  mem_iff : ∀ x, x ∈ xs ↔ ∃ i : ℕ, x = low + i * step ∧ x < high
  /-- The point at an index is that multiple. -/
  getElem_eq : ∀ (i : ℕ) (hi : i < xs.length), xs[i] = low + i * step
  /-- The points ascend. -/
  ascends : xs.Pairwise (· < ·)
  /-- There are points. -/
  ne_nil : xs ≠ []

/-- A counted mesh of at least two points is evenly spaced. -/
theorem evenlySpaced (hlh : low < high) (hn : 2 ≤ n) : EvenlySpaced low high n
    ((List.range n).map fun i : ℕ ↦ low + (high - low) / (n - 1) * i) where
  length_eq := by rw [List.length_map, List.length_range]
  getElem_eq i hi := by
    rw [List.getElem_map, List.getElem_range, div_mul_eq_mul_div, mul_comm (high - low)]
  ascends := counted_ascends hlh
  head?_eq := by
    obtain ⟨m, rfl⟩ : ∃ m, n = m + 1 := ⟨n - 1, by omega⟩
    simp [List.range_succ_eq_map]
  getLast?_eq := by
    obtain ⟨m, rfl⟩ : ∃ m, n = m + 1 := ⟨n - 1, by omega⟩
    rw [List.range_succ, List.map_append, List.map_singleton, List.getLast?_concat,
      low_add_all_spacings (by omega)]

/-- A stepped mesh holds the multiples below the upper bound. -/
theorem multiplesBelow (hlh : low < high) (hstep : 0 < step) : MultiplesBelow low high step
    ((List.range ⌈(high - low) / step⌉₊).map fun i : ℕ ↦ low + step * i) where
  mem_iff x := by
    simp only [List.mem_map, List.mem_range, lt_ceil_iff hstep, mul_comm step]
    constructor
    · rintro ⟨i, hi, rfl⟩
      exact ⟨i, rfl, hi⟩
    · rintro ⟨i, rfl, hi⟩
      exact ⟨i, hi, rfl⟩
  getElem_eq i hi := by rw [List.getElem_map, List.getElem_range, mul_comm]
  ascends := stepped_ascends hstep
  ne_nil := by
    have hpos : 0 < ⌈(high - low) / step⌉₊ := by
      rw [lt_ceil_iff hstep, Nat.cast_zero, mul_zero, add_zero]
      exact hlh
    rw [Ne, List.map_eq_nil_iff, List.range_eq_nil]
    exact hpos.ne'

end Mesh

namespace NumericDomain

/-- An interval with real bounds that is sampled at real points between them. -/
structure SampledAt (d : NumericDomain Exact) (low high : ℝ) (xs : List ℝ) : Prop where
  /-- The lower bound. -/
  low_eq : d.low = number low
  /-- The upper bound. -/
  high_eq : d.high = number high
  /-- The points of the mesh. -/
  mesh_eq : d.mesh = xs.map number
  /-- The points are within the bounds. -/
  within : ∀ x ∈ xs, low ≤ x ∧ x ≤ high
  /-- There are no points only if none are asked for. -/
  eq_nil_iff : xs = [] ↔ d.steps = .count 0

/-- A sound interval is sampled at real points between its bounds. -/
theorem exists_sampledAt {d : NumericDomain Exact} (hd : (Domain.numeric d).WellFormed) :
    ∃ low high xs, d.SampledAt low high xs := by
  obtain ⟨name, low, high, steps⟩ := d
  obtain ⟨hlow, hhigh, hlt, hsize⟩ := hd
  obtain ⟨low, rfl⟩ := isFinite_iff.mp hlow
  obtain ⟨high, rfl⟩ := isFinite_iff.mp hhigh
  have hlt : low < high := hlt
  refine ⟨low, high, ?_⟩
  cases steps with
  | count n =>
    refine ⟨_, rfl, rfl, Mesh.counted_number, ?_, ?_⟩
    · rw [List.forall_mem_map]
      intro i hi
      exact Mesh.counted_within hlt.le (List.mem_range.mp hi)
    · simp
  | size step =>
    obtain ⟨hfinite, hpositive⟩ := hsize step rfl
    obtain ⟨step, rfl⟩ := isFinite_iff.mp hfinite
    have hpositive : 0 < step := by simpa using hpositive
    refine ⟨_, rfl, rfl, Mesh.stepped_number hpositive, ?_, ?_⟩
    · rw [List.forall_mem_map]
      intro i hi
      obtain ⟨hge, hbelow⟩ := Mesh.stepped_within hpositive (List.mem_range.mp hi)
      exact ⟨hge, hbelow.le⟩
    · exact ⟨fun hnil ↦ absurd hnil (Mesh.multiplesBelow hlt hpositive).ne_nil, nofun⟩

/-- The mesh of a sound interval ascends. -/
theorem pairwise_lt_of_mesh {d : NumericDomain Exact} (hd : (Domain.numeric d).WellFormed)
    {xs : List ℝ} (hxs : d.mesh = xs.map number) : xs.Pairwise (· < ·) := by
  have hinj : Function.Injective number := fun x y h ↦ number.inj h
  obtain ⟨name, low, high, steps⟩ := d
  obtain ⟨hlow, hhigh, hlt, hsize⟩ := hd
  obtain ⟨low, rfl⟩ := isFinite_iff.mp hlow
  obtain ⟨high, rfl⟩ := isFinite_iff.mp hhigh
  cases steps with
  | count n =>
    have hmesh := Mesh.counted_number.symm.trans hxs
    rw [← List.map_injective_iff.mpr hinj hmesh]
    exact Mesh.counted_ascends hlt
  | size step =>
    obtain ⟨hfinite, hpositive⟩ := hsize step rfl
    obtain ⟨step, rfl⟩ := isFinite_iff.mp hfinite
    have hpositive : 0 < step := by simpa using hpositive
    have hmesh := (Mesh.stepped_number hpositive).symm.trans hxs
    rw [← List.map_injective_iff.mpr hinj hmesh]
    exact Mesh.stepped_ascends hpositive

/-- A set whose degrees are the values of a function is sampled to values of that function. -/
theorem SampledAt.degrees_eq {d : NumericDomain Exact} {low high : ℝ} {xs : List ℝ}
    (h : d.SampledAt low high xs) {set : FuzzySet Exact} {ctx : Context} {f : ℝ → ℝ}
    (hf : ∀ x, set.degree ctx (.number (number x)) = number (f x)) :
    d.degrees set ctx = (xs.map f).map number := by
  rw [degrees, h.mesh_eq, List.map_map, List.map_map]
  exact List.map_congr_left fun x _ ↦ hf x

/-! ### Main result -/

/-- The mesh of a valid interval. A count of at least two gives that many points at equal distances,
from the lower bound to the upper one; putting the upper bound in the place of the last one changes
nothing. A count of one gives the lower bound, and a count of zero no points. A step gives exactly
the multiples below the upper bound, in ascending order. The walk along either mesh counts its
points down without ever falling below zero. -/
theorem mesh_exact {d : NumericDomain Exact} (hd : d.validate = .ok ()) :
    ∃ low high, d.low = number low ∧ d.high = number high ∧
      (∀ n, d.steps = .count n →
        (2 ≤ n → ∃ xs, d.mesh = xs.map number ∧ Mesh.EvenlySpaced low high n xs) ∧
        (d.mesh = (List.range n).map fun i ↦
          d.low + Mesh.spacing d.low d.high n * Scalar.ofNat i) ∧
        (n = 1 → d.mesh = [d.low]) ∧ (n = 0 → d.mesh = []) ∧
        (Mesh.countedWalk d.low d.high n).CountsDown d.mesh) ∧
      ∀ h, d.steps = .size h →
        ∃ step xs, h = number step ∧ d.mesh = xs.map number ∧
          Mesh.MultiplesBelow low high step xs ∧
          (Mesh.steppedWalk d.low d.high h).CountsDown d.mesh := by
  obtain ⟨name, low, high, steps⟩ := d
  obtain ⟨hlow, hhigh, hlt, hsize⟩ := validate_eq_ok_iff.mp hd
  obtain ⟨low, rfl⟩ := isFinite_iff.mp hlow
  obtain ⟨high, rfl⟩ := isFinite_iff.mp hhigh
  have hlt : low < high := hlt
  refine ⟨low, high, rfl, rfl, ?_, ?_⟩
  · rintro n ⟨⟩
    have hmesh : mesh ⟨name, number low, number high, .count n⟩ = (List.range n).map fun i ↦
        number low + Mesh.spacing (number low) (number high) n * Scalar.ofNat i := by
      refine Mesh.counted_eq_map.trans (List.map_congr_left fun i hi ↦ ?_)
      have hi : i < n := List.mem_range.mp hi
      rw [Mesh.countedPoint_number hi, Mesh.low_add_spacing_mul hi]
    refine ⟨fun hn ↦ ⟨_, Mesh.counted_number, Mesh.evenlySpaced hlt hn⟩, hmesh, ?_, ?_,
      Mesh.countedWalk_countsDown⟩
    · rintro rfl
      simpa [Mesh.spacing] using hmesh
    · rintro rfl
      exact hmesh
  · rintro h ⟨⟩
    obtain ⟨hfinite, hpositive⟩ := hsize h rfl
    obtain ⟨step, rfl⟩ := isFinite_iff.mp hfinite
    have hpositive : 0 < step := by simpa using hpositive
    exact ⟨step, _, rfl, Mesh.stepped_number hpositive, Mesh.multiplesBelow hlt hpositive,
      Mesh.steppedWalk_countsDown⟩

/-- From 0 to 3 in steps of one. -/
noncomputable def threeUnits : NumericDomain Exact := ⟨"", 0, 3, .size 1⟩

/-- From 0 to 3 at four points. -/
noncomputable def fourPoints : NumericDomain Exact := ⟨"", 0, 3, .count 4⟩

/-- Of the multiples of one up to 3, the last one is no point of the stepped mesh, but it is one of
the counted mesh. -/
theorem threeUnits_and_fourPoints_exact :
    (threeUnits.validate = .ok () ∧ number 2 ∈ threeUnits.mesh ∧ number 3 ∉ threeUnits.mesh ∧
      (Mesh.steppedWalk threeUnits.low threeUnits.high 1).remaining? =
        some threeUnits.mesh.length) ∧
    fourPoints.validate = .ok () ∧ fourPoints.mesh.length = 4 ∧
      fourPoints.mesh[2]? = some (number 2) ∧ fourPoints.mesh.getLast? = some (number 3) := by
  have hunits : threeUnits.validate = .ok () := by
    rw [validate_eq_ok_iff]
    simp [threeUnits, Domain.WellFormed, isFinite_iff]
  have hpoints : fourPoints.validate = .ok () := by
    rw [validate_eq_ok_iff]
    simp [fourPoints, Domain.WellFormed, isFinite_iff]
  refine ⟨⟨hunits, ?_⟩, hpoints, ?_⟩
  · obtain ⟨low, high, ⟨⟩, ⟨⟩, -, hstepped⟩ := mesh_exact hunits
    obtain ⟨step, xs, ⟨⟩, hmesh, h, hwalk⟩ := hstepped _ rfl
    obtain ⟨ys, last, -, -, hys, hremaining⟩ := hwalk [] _ (.nothing _)
    refine ⟨?_, ?_, ?_⟩
    · rw [hmesh]
      exact List.mem_map_of_mem ((h.mem_iff _).mpr ⟨2, by norm_num, by norm_num⟩)
    · rw [hmesh]
      simp [h.mem_iff]
    · rw [hremaining, hys, List.nil_append]
  · obtain ⟨low, high, ⟨⟩, ⟨⟩, hcounted, -⟩ := mesh_exact hpoints
    obtain ⟨xs, hmesh, h⟩ := (hcounted 4 rfl).1 (by norm_num)
    have htwo : 2 < xs.length := h.length_eq ▸ (by norm_num)
    refine ⟨?_, ?_, ?_⟩
    · rw [hmesh, List.length_map, h.length_eq]
    · rw [hmesh, List.getElem?_map, List.getElem?_eq_getElem htwo, h.getElem_eq]
      norm_num
    · rw [hmesh, List.getLast?_map, h.getLast?_eq]
      norm_num

end NumericDomain

end FuzzyInference
