import FuzzyInference.CSource.Unit
import FuzzyInference.Mesh
import FuzzyInference.Proofs.CSource.Running
import FuzzyInference.Proofs.FuzzySystem.WellFormed
import FuzzyInference.Proofs.Mesh.Walk
import FuzzyInference.Proofs.Scalar.Number

/-!
# The generated mesh

The loop of the generated centroid runs over a mesh that it computes itself, from the bounds and the
number of points or their distance. Its expressions yield the number of points, the distance and the
points of the mesh that the domain has.
-/

namespace FuzzyInference

namespace Mesh

variable {α : Type} [Scalar α]

/-- The number of points of a mesh. -/
def length (low high : α) : Steps α → Nat
  | .count n => n
  | .size h => steppedLength low high h

/-- The distance between neighbours. -/
def distance (low high : α) : Steps α → α
  | .count n => spacing low high n
  | .size h => h

/-- The point at an index. -/
def point (low high : α) (steps : Steps α) (i : Nat) : α :=
  match steps with
  | .count n => countedPoint low high n i
  | .size h => low + h * Scalar.ofNat i

/-- The number by which a mesh is asked for: that of its points, or their distance. -/
def argument : Steps α → α
  | .count n => Scalar.ofNat n
  | .size h => h

/-- A mesh holds the points at all indices below its length. -/
theorem points_eq_map (low high : α) (steps : Steps α) :
    points low high steps = (List.range (length low high steps)).map (point low high steps) := by
  cases steps with
  | count n => exact counted_eq_map
  | size h => exact stepped_eq_map

end Mesh

namespace CSource

open Value Expression

section Yields

variable {α : Type} [Scalar α] {functions : Functions α} {env : Environment α}
  {low high : α} {steps : Steps α} {i : Nat}

private theorem ofInt_natCast (n : Nat) : (ofInt (n : Int) : α) = Scalar.ofNat n := by
  rw [ofInt, if_neg (by omega), Int.natAbs_natCast]

private theorem ofInt_natCast_sub_one {n : Nat} (hn : 1 < n) :
    (ofInt ((n : Int) - 1) : α) = Scalar.ofNat (n - 1) := by
  rw [show (n : Int) - 1 = ((n - 1 : Nat) : Int) by omega, ofInt_natCast]

/-- Where the loop of the generated centroid is run: the parameters stand for the bounds of the
interval, and the locals for the number of points and their distance. -/
structure OverMesh (env : Environment α) (low high : α) (steps : Steps α) : Prop where
  /-- The lower bound. -/
  low_eq : env "min_val" = some (.floating low)
  /-- The upper bound. -/
  high_eq : env "max_val" = some (.floating high)
  /-- The number of points. -/
  length_eq : env "n" = some (.whole (Mesh.length low high steps))
  /-- The number of points fits into an integer. -/
  length_lt : Mesh.length low high steps < 2 ^ 31
  /-- The distance. -/
  distance_eq : env "step" = some (.floating (Mesh.distance low high steps))

/-- The expression for the span between the bounds. -/
theorem span_yields (hlow : env "min_val" = some (.floating low))
    (hhigh : env "max_val" = some (.floating high)) :
    Yields functions env 0 (grouped [.name "max_val", .minus, .name "min_val"])
      (.floating (high - low)) :=
  .group (by decide)
    (.binary (n := 2) .minus rfl rfl ((Yields.name hhigh trivial).of_le (by decide))
    ((Yields.name hlow trivial).of_le (by decide)) rfl trivial)

section Counted

variable {n : Nat} (hn : env "n" = some (.whole n)) (hlt : n < 2 ^ 31)

include hn hlt

private theorem length_yields : Yields functions env 0 [.name "n"] (.whole n) :=
  .name hn (by constructor <;> omega)

private theorem several_yields :
    Yields functions env 4 [.name "n", .greater, .whole 1] (.ofBool (decide (1 < n))) := by
  refine .binary (n := 3) .greater rfl rfl ((length_yields hn hlt).of_le (by decide))
    ((Yields.whole (by decide)).of_le (by decide)) ?_ (fitsInt_ofBool _)
  show some (Value.ofBool (decide ((1 : Int) < n))) = _
  simp only [Nat.one_lt_cast]

private theorem last_yields :
    Yields functions env 3 [.name "n", .minus, .whole 1] (.whole ((n : Int) - 1)) :=
  .binary (n := 2) .minus rfl rfl ((length_yields hn hlt).of_le (by decide))
    ((Yields.whole (by decide)).of_le (by decide)) rfl (by constructor <;> omega)

private theorem atLast_yields (hi : env "i" = some (.whole i)) (hin : i < n) :
    Yields functions env 6
      [.name "n", .greater, .whole 1, .both, .name "i", .equal, .name "n", .minus, .whole 1]
      (.ofBool (decide (i + 1 = n ∧ 1 < n))) := by
  have hindex : Yields functions env 0 [.name "i"] (.whole i) :=
    .name hi (by constructor <;> omega)
  have hequal : Yields functions env 5 [.name "i", .equal, .name "n", .minus, .whole 1]
      (.ofBool ((i : Int) == (n : Int) - 1)) :=
    .binary (n := 4) .equal rfl rfl (hindex.of_le (by decide))
      ((last_yields hn hlt).of_le (by decide)) rfl (fitsInt_ofBool _)
  refine .binary (n := 5) .both rfl rfl ((several_yields hn hlt).of_le (by decide)) hequal ?_
    (fitsInt_ofBool _)
  have hb (b c : Bool) : BinaryOperator.both.apply (ofBool b : Value α) (ofBool c) =
      some (.ofBool (b && c)) := by
    cases b <;> cases c <;> rfl
  have hlast : ((i : Int) == (n : Int) - 1) = decide (i + 1 = n) := by
    rw [Bool.beq_eq_decide_eq, decide_eq_decide]
    omega
  rw [hb, hlast, ← Bool.decide_and]
  simp only [and_comm]

end Counted

/-- The expression for the distance yields that of the mesh. -/
theorem step_yields (hlow : env "min_val" = some (.floating low))
    (hhigh : env "max_val" = some (.floating high))
    (hsteps : env "steps" = some (.floating (Mesh.argument steps)))
    (hn : env "n" = some (.whole (Mesh.length low high steps)))
    (hlt : Mesh.length low high steps < 2 ^ 31) :
    Yields functions env 8 (MeshLoop.ofSteps steps).step
      (.floating (Mesh.distance low high steps)) := by
  cases steps with
  | size h => exact (Yields.name hsteps trivial).of_le (by decide)
  | count n =>
    have hlast : Yields functions env 0 (grouped [.name "n", .minus, .whole 1])
        (.whole ((n : Int) - 1)) := .group (by decide) (last_yields hn hlt)
    have hquotient : Yields functions env 2
        (grouped [.name "max_val", .minus, .name "min_val"] ++
          .slash :: grouped [.name "n", .minus, .whole 1])
        (.floating ((high - low) / ofInt ((n : Int) - 1))) :=
      .binary (n := 1) .slash rfl rfl ((span_yields hlow hhigh).of_le (by decide))
        (hlast.of_le (by decide)) rfl trivial
    have hchoice := Yields.choice ((several_yields hn hlt).of_le (by decide))
      (hquotient.of_le (by decide)) ((Yields.number 0).of_le (by decide))
    have hvalue : (if decide (1 < n) then
        (.floating ((high - low) / ofInt ((n : Int) - 1)) : Value α) else .floating 0) =
        .floating (Mesh.distance low high (.count n)) := by
      rw [Mesh.distance, Mesh.spacing]
      by_cases hseveral : 1 < n
      · simp only [hseveral, decide_true, if_true, ofInt_natCast_sub_one hseveral]
      · simp only [hseveral, decide_false, if_false, Bool.false_eq_true]
    rw [← hvalue]
    exact hchoice

private theorem spaced_yields (h : OverMesh env low high steps) (hi : env "i" = some (.whole i))
    (hlt : i < Mesh.length low high steps) :
    Yields functions env 3 [.name "min_val", .plus, .name "step", .times, .name "i"]
      (.floating (low + Mesh.distance low high steps * Scalar.ofNat i)) := by
  have hlength := h.length_lt
  have hindex : Yields functions env 0 [.name "i"] (.whole i) :=
    .name hi (by constructor <;> omega)
  have hproduct : Yields functions env 2 [.name "step", .times, .name "i"]
      (.floating (Mesh.distance low high steps * ofInt (i : Int))) :=
    .binary (n := 1) .times rfl rfl ((Yields.name h.distance_eq trivial).of_le (by decide))
      (hindex.of_le (by decide)) rfl trivial
  rw [← ofInt_natCast]
  exact .binary (n := 2) .plus rfl rfl ((Yields.name h.low_eq trivial).of_le (by decide)) hproduct
    rfl trivial

/-- The expression for a point yields that of the mesh. -/
theorem point_yields (h : OverMesh env low high steps) (hi : env "i" = some (.whole i))
    (hlt : i < Mesh.length low high steps) :
    Yields functions env 8 (MeshLoop.ofSteps steps).point
      (.floating (Mesh.point low high steps i)) := by
  have hspaced : Yields functions env 3 _ _ := spaced_yields h hi hlt
  cases steps with
  | size h => exact hspaced.of_le (by decide)
  | count n =>
    have hchoice := Yields.choice ((atLast_yields h.length_eq h.length_lt hi hlt).of_le (by decide))
      ((Yields.name h.high_eq trivial).of_le (by decide)) (hspaced.of_le (by decide))
    have hvalue : (if decide (i + 1 = n ∧ 1 < n) then (.floating high : Value α)
        else .floating (low + Mesh.distance low high (.count n) * Scalar.ofNat i)) =
        .floating (Mesh.point low high (.count n) i) := by
      rw [Mesh.point, Mesh.countedPoint, Mesh.distance]
      by_cases hlast : i + 1 = n ∧ 1 < n
      · simp only [hlast, decide_true, if_true, and_self]
      · simp only [hlast, decide_false, if_false, Bool.false_eq_true]
    rw [← hvalue]
    exact hchoice

end Yields

/-! ### The number of points -/

/-- The least integer that is not below a scalar, as a scalar. -/
noncomputable def ceiling : Exact → Exact
  | .number x => .number ⌈x⌉
  | .infinite s => .infinite s
  | .nan => .nan

private theorem toWhole_number (n : ℕ) : (floating (Exact.number n)).toWhole = n := by
  have hceil : Scalar.ceilNat (Exact.number n) = n := Nat.ceil_natCast n
  simp [toWhole, truncate, hceil]

private theorem toWhole_ceiling {x : ℝ} (hx : 0 ≤ x) :
    (floating (ceiling (.number x))).toWhole = ⌈x⌉₊ := by
  rw [ceiling, ← toWhole_number, ← natCast_ceil_eq_intCast_ceil hx]

/-- The expression for the number of points yields that of the mesh. -/
theorem count_yields {functions : Functions Exact} {env : Environment Exact}
    {d : NumericDomain Exact} (hd : (Domain.numeric d).WellFormed)
    (hlt : Mesh.length d.low d.high d.steps < 2 ^ 31)
    (hceil : ∀ h, d.steps = .size h → ∀ x, functions "ceil" [x] = some (ceiling x))
    (henv : env "ceil" = none)
    (hlow : env "min_val" = some (.floating d.low))
    (hhigh : env "max_val" = some (.floating d.high))
    (hsteps : env "steps" = some (.floating (Mesh.argument d.steps))) :
    Yields functions env 8 (MeshLoop.ofSteps d.steps).count
      (.whole (Mesh.length d.low d.high d.steps)) := by
  obtain ⟨name, low, high, steps⟩ := d
  have hname : Yields functions env 0 [.name "steps"] _ := .name hsteps trivial
  cases steps with
  | count n =>
    have hwhole : (floating (Mesh.argument (.count n)) : Value Exact).toWhole = n :=
      toWhole_number n
    have hconversion := Yields.conversion (hname.of_le (by decide)) (by
      rw [hwhole]
      exact ⟨by omega, by exact_mod_cast hlt⟩)
    rw [hwhole] at hconversion
    exact hconversion.of_le (by decide)
  | size h =>
    obtain ⟨hlow', hhigh', hbounds, hsize⟩ := hd
    obtain ⟨hfinite, hpositive⟩ := hsize h rfl
    obtain ⟨l, rfl⟩ := Exact.isFinite_iff.mp hlow'
    obtain ⟨u, rfl⟩ := Exact.isFinite_iff.mp hhigh'
    obtain ⟨h, rfl⟩ := Exact.isFinite_iff.mp hfinite
    have hlu : l < u := hbounds
    have hpos : 0 < h := by simpa using hpositive
    have hquotient : Yields functions env 2
        (grouped [.name "max_val", .minus, .name "min_val"] ++ [.slash, .name "steps"])
        (.floating (.number ((u - l) / h))) := by
      rw [← Exact.number_div_of_pos hpos, ← Exact.number_sub]
      exact .binary (n := 1) .slash rfl rfl ((span_yields hlow hhigh).of_le (by decide))
        (hname.of_le (by decide)) rfl trivial
    have hcall := Yields.call (n := 2) (by decide) hquotient henv (hceil _ rfl _)
    have hlength : Mesh.length (Exact.number l) (.number u) (.size (.number h)) =
        ⌈(u - l) / h⌉₊ := by
      rw [Mesh.length, Mesh.steppedLength, Exact.number_sub, Exact.number_div_of_pos hpos]
      rfl
    have hwhole : (floating (ceiling (.number ((u - l) / h))) : Value Exact).toWhole =
        ⌈(u - l) / h⌉₊ := toWhole_ceiling (div_nonneg (sub_nonneg.mpr hlu.le) hpos.le)
    have hconversion := Yields.conversion (hcall.of_le (by decide)) (by
      rw [toFloating, hwhole, ← hlength]
      exact ⟨by omega, by exact_mod_cast hlt⟩)
    rw [toFloating, hwhole, ← hlength] at hconversion
    exact hconversion.of_le (by decide)

end CSource

end FuzzyInference
