import FuzzyInference.Proofs.FuzzySet.Divisors
import FuzzyInference.Proofs.Mesh

/-!
# Division by zero

In exact arithmetic nothing that passes its check leads to a division by zero: neither the degree of
a point in a set, nor the mesh of an interval, nor the reduction of a set to a point of it by any
method.
-/

namespace FuzzyInference

open Scalar

section Divisors

variable {α : Type} [Scalar α]

/-! ### Meshes -/

namespace Mesh

/-- The divisor of the points of a mesh. -/
def divisors : Steps α → List α
  | .count n => if 1 < n then [Scalar.ofNat (n - 1)] else []
  | .size h => [h]

/-- The distance of neighbours takes no other divisor. -/
theorem spacing_dividesOnlyBy (low high : α) (n : ℕ) :
    DividesOnlyBy (fun arithmetic ↦ @spacing α arithmetic low high n) (divisors (.count n)) := by
  intro q hq
  show @spacing α (dividingBy q) low high n = spacing low high n
  simp only [divisors] at hq
  unfold spacing
  split_ifs at hq ⊢
  · exact hq _ (List.mem_singleton_self _) _
  · rfl

/-- Neither do the points of a mesh. -/
theorem points_dividesOnlyBy (low high : α) (steps : Steps α) :
    DividesOnlyBy (fun arithmetic ↦ @points α arithmetic low high steps) (divisors steps) := by
  intro q hq
  cases steps with
  | count n =>
    have hspacing : @spacing α (dividingBy q) low high n = spacing low high n :=
      spacing_dividesOnlyBy low high n q hq
    have hpoint (i : ℕ) :
        @countedPoint α (dividingBy q) low high n i = countedPoint low high n i := by
      show (if i + 1 = n ∧ 1 < n then high
        else low + @spacing α (dividingBy q) low high n * Scalar.ofNat i) =
          countedPoint low high n i
      rw [hspacing]
      rfl
    calc @counted α (dividingBy q) low high n
        = (List.range n).map (@countedPoint α (dividingBy q) low high n) :=
          @counted_eq_map α (dividingBy q) low high n
      _ = (List.range n).map (countedPoint low high n) :=
          List.map_congr_left fun i _ ↦ hpoint i
      _ = counted low high n := counted_eq_map.symm
  | size h =>
    have hlength : @steppedLength α (dividingBy q) low high h = steppedLength low high h := by
      show Scalar.ceilNat (q (high - low) h) = Scalar.ceilNat ((high - low) / h)
      rw [hq h (List.mem_singleton_self _)]
    calc @stepped α (dividingBy q) low high h
        = (List.range (@steppedLength α (dividingBy q) low high h)).map
            (fun i ↦ low + h * Scalar.ofNat i) := @stepped_eq_map α (dividingBy q) low high h
      _ = (List.range (steppedLength low high h)).map (fun i ↦ low + h * Scalar.ofNat i) := by
          rw [hlength]
      _ = stepped low high h := stepped_eq_map.symm

end Mesh

/-! ### Reductions -/

namespace Defuzzification

/-- The divisor of the point that a sampled membership function is reduced to. -/
def divisors (method : Defuzzification) (points memberships : List α) : List α :=
  if points.isEmpty then []
  else
    match method with
    | centroid =>
      let total := (moments points memberships).2
      if total == 0 then [] else [total]
    | bisector => [2]
    | middleOfMaxima =>
      let n := (maxima points memberships).length
      if n = 0 ∨ n % 2 = 1 then [] else [2]
    | smallestOfMaxima | largestOfMaxima => []

/-- Running sums take no divisor. -/
theorem runningSums_dividesOnlyBy (total : α) (ms : List α) :
    DividesOnlyBy (fun arithmetic ↦ @runningSums α arithmetic total ms) [] := by
  intro q hq
  induction ms generalizing total with
  | nil => rfl
  | cons m ms ih => exact congrArg ((total + m) :: ·) (ih (total + m))

/-- The index of the bisector takes no divisor but two. -/
theorem bisectorIndex_dividesOnlyBy (ms : List α) :
    DividesOnlyBy (fun arithmetic ↦ @bisectorIndex α arithmetic ms) [2] := by
  intro q hq
  have hsums : @runningSums α (dividingBy q) 0 ms = runningSums 0 ms :=
    runningSums_dividesOnlyBy 0 ms q (List.forall_mem_nil _)
  have hhalf (total : α) : q total 2 = total / 2 := hq 2 (List.mem_singleton_self _) total
  show (let sums := (@runningSums α (dividingBy q) 0 ms).toArray
    let half := q (sums.getD (sums.size - 1) 0) 2
    min (searchFirst (fun i ↦ sums.getD i 0 < half) 0 sums.size) (sums.size - 1)) =
      bisectorIndex ms
  rw [hsums]
  simp only [hhalf]
  rfl

/-- Neither does a median. -/
theorem median_dividesOnlyBy (xs : List α) :
    DividesOnlyBy (fun arithmetic ↦ @median α arithmetic xs)
      (if xs.length = 0 ∨ xs.length % 2 = 1 then [] else [2]) := by
  intro q hq
  show (if xs.length = 0 then nan
    else if xs.length % 2 = 1 then xs.getD (xs.length / 2) nan
    else q (xs.getD (xs.length / 2 - 1) nan + xs.getD (xs.length / 2) nan) 2) = median xs
  unfold median
  by_cases hempty : xs.length = 0
  · rw [if_pos hempty, if_pos hempty]
  by_cases hodd : xs.length % 2 = 1
  · rw [if_neg hempty, if_pos hodd, if_neg hempty, if_pos hodd]
  rw [if_neg (not_or.mpr ⟨hempty, hodd⟩)] at hq
  rw [hq 2 (List.mem_singleton_self _)]

/-- The point that a sampled membership function is reduced to takes no other divisor. -/
theorem reduce_dividesOnlyBy (method : Defuzzification) (points memberships : List α) :
    DividesOnlyBy (fun arithmetic ↦ @reduce α arithmetic method points memberships)
      (method.divisors points memberships) := by
  intro q hq
  show @reduce α (dividingBy q) method points memberships = reduce method points memberships
  unfold divisors at hq
  unfold reduce
  by_cases hempty : points.isEmpty = true
  · rw [if_pos hempty, if_pos hempty]
    rfl
  rw [if_neg hempty] at hq
  rw [if_neg hempty, if_neg hempty]
  cases method with
  | centroid =>
    show (if (moments points memberships).2 == 0 then nan
      else q (moments points memberships).1 (moments points memberships).2) =
      if (moments points memberships).2 == 0 then nan
      else (moments points memberships).1 / (moments points memberships).2
    simp only at hq
    split_ifs at hq ⊢
    · rfl
    · exact hq _ (List.mem_singleton_self _) _
  | bisector => exact congrArg (points.getD · nan) (bisectorIndex_dividesOnlyBy memberships q hq)
  | middleOfMaxima => exact median_dividesOnlyBy (maxima points memberships) q hq
  | smallestOfMaxima => rfl
  | largestOfMaxima => rfl

end Defuzzification

/-! ### Intervals -/

namespace NumericDomain

/-- The divisors of the number that a set is reduced to: those of the mesh, those of the degrees at
its points, and that of the reduction. -/
def defuzzifyDivisors (d : NumericDomain α) (set : FuzzySet α) (method : Defuzzification)
    (ctx : Context) : List α :=
  Mesh.divisors d.steps ++ (d.mesh.flatMap fun x ↦ set.divisors (.number x)) ++
    method.divisors d.mesh (d.degrees set ctx)

/-- The mesh of an interval takes no other divisor than its steps give. -/
theorem mesh_dividesOnlyBy (d : NumericDomain α) :
    DividesOnlyBy (fun arithmetic ↦ @mesh α arithmetic d) (Mesh.divisors d.steps) :=
  Mesh.points_dividesOnlyBy d.low d.high d.steps

/-- The degrees on the mesh of an interval. -/
theorem degrees_dividesOnlyBy (d : NumericDomain α) (set : FuzzySet α) (ctx : Context) :
    DividesOnlyBy (fun arithmetic ↦ @degrees α arithmetic d set ctx)
      (Mesh.divisors d.steps ++ d.mesh.flatMap fun x ↦ set.divisors (.number x)) := by
  intro q hq
  have hmesh : @mesh α (dividingBy q) d = d.mesh :=
    d.mesh_dividesOnlyBy q (hq.mono (List.subset_append_left _ _))
  show (@mesh α (dividingBy q) d).map
      (fun x ↦ @FuzzySet.degree α (dividingBy q) ctx (.number x) set) =
    d.mesh.map fun x ↦ set.degree ctx (.number x)
  rw [hmesh]
  refine List.map_congr_left fun x hx ↦ ?_
  refine set.degree_dividesOnlyBy ctx (.number x) q (hq.mono ?_)
  exact fun y hy ↦ List.mem_append_right _ (List.mem_flatMap.mpr ⟨x, hx, hy⟩)

/-- The number that a set is reduced to takes no other divisors. -/
theorem defuzzify_dividesOnlyBy (d : NumericDomain α) (set : FuzzySet α) (method : Defuzzification)
    (ctx : Context) :
    DividesOnlyBy (fun arithmetic ↦ @defuzzify α arithmetic d set method ctx)
      (d.defuzzifyDivisors set method ctx) := by
  intro q hq
  have hdegrees : @degrees α (dividingBy q) d set ctx = d.degrees set ctx :=
    d.degrees_dividesOnlyBy set ctx q (hq.mono (List.subset_append_left _ _))
  have hmesh : @mesh α (dividingBy q) d = d.mesh :=
    d.mesh_dividesOnlyBy q (hq.mono fun y hy ↦
      List.mem_append_left _ (List.mem_append_left _ hy))
  show @Defuzzification.reduce α (dividingBy q) method (@mesh α (dividingBy q) d)
    (@degrees α (dividingBy q) d set ctx) = method.reduce d.mesh (d.degrees set ctx)
  rw [hmesh, hdegrees]
  exact method.reduce_dividesOnlyBy d.mesh _ q (hq.mono (List.subset_append_right _ _))

end NumericDomain

end Divisors

/-! ### Divisors in exact arithmetic -/

open Exact

/-- No reduction divides by zero, whatever the points and the memberships are. -/
theorem Defuzzification.divisors_ne_zero (method : Defuzzification)
    (points memberships : List Exact) :
    ∀ y ∈ method.divisors points memberships, (y == 0) = false := by
  have htwo : ∀ y ∈ [(2 : Exact)], (y == 0) = false :=
    List.forall_mem_singleton.mpr (number_beq_zero two_ne_zero)
  unfold divisors
  by_cases hempty : points.isEmpty = true
  · rw [if_pos hempty]
    exact List.forall_mem_nil _
  rw [if_neg hempty]
  cases method with
  | centroid =>
    simp only
    split_ifs with htotal
    · exact List.forall_mem_nil _
    · exact List.forall_mem_singleton.mpr (Bool.eq_false_iff.mpr htotal)
  | bisector => exact htwo
  | middleOfMaxima =>
    simp only
    split_ifs
    · exact List.forall_mem_nil _
    · exact htwo
  | smallestOfMaxima | largestOfMaxima => exact List.forall_mem_nil _

/-- Sound steps are not zero, and the points of a mesh are counted from two on. -/
theorem Mesh.divisors_ne_zero {d : NumericDomain Exact} (hd : (Domain.numeric d).WellFormed) :
    ∀ y ∈ divisors d.steps, (y == 0) = false := by
  obtain ⟨name, low, high, steps⟩ := d
  cases steps with
  | count n =>
    simp only [divisors]
    split_ifs with hn
    · have hpred : ((n - 1 : ℕ) : ℝ) ≠ 0 := Nat.cast_ne_zero.mpr (by omega)
      exact List.forall_mem_singleton.mpr (number_beq_zero hpred)
    · exact List.forall_mem_nil _
  | size h =>
    obtain ⟨-, -, -, hsize⟩ := hd
    obtain ⟨hfinite, hpositive⟩ := hsize h rfl
    obtain ⟨h, rfl⟩ := isFinite_iff.mp hfinite
    have hpositive : 0 < h := by simpa using hpositive
    exact List.forall_mem_singleton.mpr (number_beq_zero hpositive.ne')

/-- Reducing a sound set on a sound interval to a number does not divide by zero. -/
theorem NumericDomain.defuzzifyDivisors_ne_zero {d : NumericDomain Exact}
    (hd : (Domain.numeric d).WellFormed) {set : FuzzySet Exact} (hset : set.WellFormed)
    (method : Defuzzification) (ctx : Context) :
    ∀ y ∈ d.defuzzifyDivisors set method ctx, (y == 0) = false := by
  obtain ⟨low, high, xs, hsampled⟩ := exists_sampledAt hd
  unfold defuzzifyDivisors
  rw [List.forall_mem_append, List.forall_mem_append]
  refine ⟨⟨Mesh.divisors_ne_zero hd, ?_⟩, method.divisors_ne_zero _ _⟩
  intro y hy
  obtain ⟨x, hx, hy⟩ := List.mem_flatMap.mp hy
  -- The points of the mesh are real numbers.
  rw [hsampled.mesh_eq] at hx
  obtain ⟨x, -, rfl⟩ := List.mem_map.mp hx
  have hx : Point.number (number x) ≠ .number .nan := nofun
  exact FuzzySet.divisors_ne_zero hx hset y hy

/-! ### Main result -/

/-- Without rounding, what passes its check leads to no division by zero. The degree of a number, of
an infinity or of a label in a valid set takes no divisor that is zero, whatever the context is;
neither does the mesh of a valid interval, nor the reduction of any degrees to a point of any list
by any method, nor, all of these together, defuzzifying a valid set on a valid interval. -/
theorem valid_divides_safely :
    (∀ set : FuzzySet Exact, set.validate = .ok () →
      ∀ (ctx : Context) (x : Point Exact), x ≠ .number .nan →
        DividesSafely (fun arithmetic ↦ @FuzzySet.degree Exact arithmetic ctx x set)
          (set.divisors x)) ∧
    (∀ d : NumericDomain Exact, d.validate = .ok () →
      DividesSafely (fun arithmetic ↦ @NumericDomain.mesh Exact arithmetic d)
        (Mesh.divisors d.steps) ∧
      ∀ set : FuzzySet Exact, set.validate = .ok () →
        ∀ (method : Defuzzification) (ctx : Context),
          DividesSafely
            (fun arithmetic ↦ @NumericDomain.defuzzify Exact arithmetic d set method ctx)
            (d.defuzzifyDivisors set method ctx)) ∧
    ∀ (method : Defuzzification) (points memberships : List Exact),
      DividesSafely
        (fun arithmetic ↦ @Defuzzification.reduce Exact arithmetic method points memberships)
        (method.divisors points memberships) := by
  refine ⟨?_, ?_, ?_⟩
  · intro set hset ctx x hx
    exact ⟨set.degree_dividesOnlyBy ctx x,
      FuzzySet.divisors_ne_zero hx (FuzzySet.validate_eq_ok_iff.mp hset)⟩
  · intro d hd
    have hd := NumericDomain.validate_eq_ok_iff.mp hd
    refine ⟨⟨d.mesh_dividesOnlyBy, Mesh.divisors_ne_zero hd⟩, fun set hset method ctx ↦ ?_⟩
    exact ⟨d.defuzzify_dividesOnlyBy set method ctx,
      NumericDomain.defuzzifyDivisors_ne_zero hd (FuzzySet.validate_eq_ok_iff.mp hset) method ctx⟩
  · intro method points memberships
    exact ⟨method.reduce_dividesOnlyBy points memberships, method.divisors_ne_zero _ _⟩

/-- A trapezoid with vertical edges, or what is far from the centre of a bell. -/
noncomputable def blockOrFar : FuzzySet Exact :=
  .or none [.shape (.trapezoidal 0 0 2 2), .not (.shape (.gaussian 1 3))]

/-- An interval that is sampled at both ends and at its middle. -/
noncomputable def blockRange : NumericDomain Exact := ⟨"range", 0, 4, .count 3⟩

/-- At the vertical edges of a trapezoid nothing is divided by zero. -/
theorem blockOrFar_divides_safely :
    blockOrFar.validate = .ok () ∧ blockRange.validate = .ok () ∧
      (Point.number (number 2) ≠ .number .nan ∧
        DividesSafely
          (fun arithmetic ↦ @FuzzySet.degree Exact arithmetic {} (.number (number 2)) blockOrFar)
          (blockOrFar.divisors (.number (number 2)))) ∧
      DividesSafely (fun arithmetic ↦ @NumericDomain.mesh Exact arithmetic blockRange)
        (Mesh.divisors blockRange.steps) ∧
      DividesSafely
        (fun arithmetic ↦
          @NumericDomain.defuzzify Exact arithmetic blockRange blockOrFar .centroid {})
        (blockRange.defuzzifyDivisors blockOrFar .centroid {}) := by
  have hset : blockOrFar.validate = .ok () := by
    rw [FuzzySet.validate_eq_ok_iff]
    simp [blockOrFar, Shape.wellFormed_iff, Shape.numbers, Shape.parameters, Shape.knots,
      Shape.widths, isFinite_iff]
  have hd : blockRange.validate = .ok () := by
    rw [NumericDomain.validate_eq_ok_iff]
    simp [blockRange, Domain.WellFormed, isFinite_iff]
  have hx : Point.number (number 2) ≠ .number .nan := by simp
  have hdegree := valid_divides_safely.1 blockOrFar hset {} _ hx
  have hdomain := valid_divides_safely.2.1 blockRange hd
  exact ⟨hset, hd, ⟨hx, hdegree⟩, hdomain.1, hdomain.2 blockOrFar hset .centroid {}⟩

end FuzzyInference
