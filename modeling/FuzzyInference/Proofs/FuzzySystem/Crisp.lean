import FuzzyInference.Proofs.Defuzzify
import FuzzyInference.Proofs.FuzzySystem.Degree
import FuzzyInference.Proofs.Mesh

/-!
# Crisp outputs

In exact arithmetic a system with an interval for the domain of its target reduces an output without
negative degrees to a number within the interval. There is no result only if the interval is sampled
at no points, or if the centroid is taken where no rule fires.
-/

namespace FuzzyInference

open Exact Result Scalar

namespace FuzzySystem

/-- The crisp output on an interval is what the output is reduced to on the mesh. -/
theorem crisp_numeric {α : Type} [Scalar α] {s : FuzzySystem α} {inputs : Assignment α}
    {ctx : Context} {v : Variable α} (hv : s.targetVariable = .ok v) {d : NumericDomain α}
    (hd : v.domain = .numeric d) {set : FuzzySet α} (ho : s.output inputs ctx = .ok set) :
    s.crisp inputs ctx =
      .ok (.number (ctx.defuzzification.reduce d.mesh (d.degrees set ctx))) := by
  simp only [crisp, ho, hv, hd, mapError_ok, ok_bind, Domain.defuzzify, NumericDomain.defuzzify]

variable {s : FuzzySystem Exact} {inputs : Assignment Exact} {ctx : Context}

/-- The output of a well-formed system gives nothing an infinite degree. -/
theorem WellFormed.notInfinite_output (hs : s.WellFormed) {set : FuzzySet Exact}
    (ho : s.output inputs ctx = .ok set) (sampling : Context) (x : Point Exact) :
    NotInfinite (set.degree sampling x) := by
  have hgives (c : Context) (x : Point Exact) : s.registry.Gives NotInfinite c x :=
    fun v hv set hset ↦ ((hs.members v hv).sets set hset).notInfinite_degree
  apply RuleBase.output_kept kept_notInfinite (fun _ x _ ↦ hgives ctx x) (hgives sampling x) _ ho
  intro rule hrule
  exact notInfinite_of_isDegree (hs.rules rule hrule).isDegree_weight

/-- The degrees of the output on the mesh are numbers that are not negative, if none of them is
negative. -/
theorem WellFormed.exists_degrees (hs : s.WellFormed) {set : FuzzySet Exact}
    (ho : s.output inputs ctx = .ok set) {d : NumericDomain Exact}
    (hm : ∀ m ∈ d.degrees set ctx, 0 ≤ m) :
    ∃ ms : List ℝ, (∀ m ∈ ms, 0 ≤ m) ∧ d.degrees set ctx = ms.map number := by
  apply exists_map_number
  intro a ha
  obtain ⟨x, -, rfl⟩ := List.mem_map.mp ha
  have hnonneg := hm _ ha
  rcases notInfinite_iff.mp (hs.notInfinite_output ho ctx (.number x)) with ⟨y, hy⟩ | hnan
  · rw [hy] at hnonneg ⊢
    exact ⟨y, by simpa using hnonneg, rfl⟩
  · rw [hnan] at hnonneg
    cases hnonneg

/-! ### Main results -/

/-- The crisp output on an interval, of an output set without negative degrees on the mesh, is no
number exactly if the mesh is empty or the method is the centroid and all sampled degrees are zero.
Else it is a number within the bounds. The mesh is empty exactly if no points are asked for. -/
theorem crisp_within_bounds (hs : s.Obtained) {v : Variable Exact} (hv : s.targetVariable = .ok v)
    {d : NumericDomain Exact} (hd : v.domain = .numeric d) {set : FuzzySet Exact}
    (ho : s.output inputs ctx = .ok set) (hm : ∀ m ∈ d.degrees set ctx, 0 ≤ m) :
    ∃ y, s.crisp inputs ctx = .ok (.number y) ∧
      (y = .nan ↔ d.mesh = [] ∨ ctx.defuzzification = .centroid ∧
        ∀ m ∈ d.degrees set ctx, m = 0) ∧
      (d.mesh = [] ↔ d.steps = .count 0) ∧
      (y ≠ .nan → isFinite y = true ∧ d.low ≤ y ∧ y ≤ d.high) := by
  have hw := hs.wellFormed
  have hdomain : (Domain.numeric d).WellFormed :=
    hd ▸ (hw.members v (Registry.mem_of_get hv)).domain
  obtain ⟨low, high, xs, hxs⟩ := d.exists_sampledAt hdomain
  obtain ⟨ms, hms, hdegrees⟩ := hw.exists_degrees ho hm
  have hlen : xs.length = ms.length := by
    have hmap : (d.degrees set ctx).length = d.mesh.length := List.length_map _
    rw [hdegrees, hxs.mesh_eq, List.length_map, List.length_map] at hmap
    exact hmap.symm
  have hzero : (∀ m ∈ d.degrees set ctx, m = 0) ↔ ∀ m ∈ ms, m = 0 := by
    rw [hdegrees, List.forall_mem_map]
    simp
  have hmesh : d.mesh = [] ↔ xs = [] := by rw [hxs.mesh_eq, List.map_eq_nil_iff]
  rw [crisp_numeric hv hd ho, hzero, hmesh, hxs.mesh_eq, hdegrees]
  refine ⟨_, rfl, ?_⟩
  by_cases hnan : xs = [] ∨ ctx.defuzzification = .centroid ∧ ∀ m ∈ ms, m = 0
  · rw [Defuzzification.reduce_eq_nan hlen hms hnan]
    exact ⟨iff_of_true rfl hnan, hxs.eq_nil_iff, fun hne ↦ absurd rfl hne⟩
  · obtain ⟨y, hy, hge, hle⟩ := Defuzzification.reduce_between hlen hms hxs.within hnan
    rw [hy, hxs.low_eq, hxs.high_eq]
    exact ⟨iff_of_false nofun hnan, hxs.eq_nil_iff, fun _ ↦ ⟨rfl, hge, hle⟩⟩

/-- Soil of some moisture is watered for a number of minutes between the bounds, by the bisector. -/
theorem irrigation_crisp_within_bounds :
    irrigation.Obtained ∧ irrigation.targetVariable = .ok watering ∧
      ∃ set, irrigation.output (moist 40) { defuzzification := .bisector } = .ok set ∧
        (∀ m ∈ minutes.degrees set { defuzzification := .bisector }, 0 ≤ m) ∧
        ∃ y, irrigation.crisp (moist 40) { defuzzification := .bisector } = .ok (.number y) ∧
          isFinite y = true ∧ 0 ≤ y ∧ y ≤ 10 := by
  have hw := obtained_irrigation.wellFormed
  obtain ⟨set, ho⟩ : ∃ set, irrigation.output (moist 40) { defuzzification := .bisector } =
      .ok set := RuleBase.exists_output (fun _ ↦ hw.validate_eq_ok) (given_moist 40)
  have hm : ∀ m ∈ minutes.degrees set { defuzzification := .bisector }, 0 ≤ m := by
    intro m hm
    obtain ⟨x, hx, rfl⟩ := List.mem_map.mp hm
    have hwatering : watering ∈ irrigation.registry.members := by simp [irrigation]
    obtain ⟨_, _, xs, hxs⟩ := minutes.exists_sampledAt (hw.members watering hwatering).domain
    rw [hxs.mesh_eq] at hx
    obtain ⟨x, -, rfl⟩ := List.mem_map.mp hx
    have hfinite : (Point.number (number x)).IsFinite := by
      rintro y ⟨⟩
      rfl
    exact (hw.isDegree_output irrigation_graded (isFinite_moist 40) ho hfinite).1
  obtain ⟨y, hcrisp, hnan, hempty, hbounds⟩ :=
    crisp_within_bounds obtained_irrigation rfl rfl ho hm
  refine ⟨obtained_irrigation, rfl, set, ho, hm, y, hcrisp, hbounds ?_⟩
  intro hy
  rcases hnan.mp hy with hmesh | hmethod
  · cases hempty.mp hmesh
  · cases hmethod.1

end FuzzySystem

end FuzzyInference
