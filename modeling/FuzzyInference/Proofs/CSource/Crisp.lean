import FuzzyInference.Proofs.CSource.Centroid
import FuzzyInference.Proofs.CSource.Spellings
import FuzzyInference.Proofs.CSource.UnitText
import FuzzyInference.Proofs.FuzzySystem.Crisp

/-!
# Generated crisp outputs

The function that is generated for the centroid of a system, called with the bounds of the target's
domain and with the number of points or their distance, visits the points of the mesh in order and
returns the centroid of what the function for the degree returns. If that returns the degrees in the
output of the system, the result is the crisp output. The lines that are written for it are read as
this function.
-/

namespace FuzzyInference

open Exact Result

namespace CSource

namespace SourceUnit

/-- The arguments of the function for the centroid of a domain: its bounds, the number of points or
their distance, and the values of the inputs. -/
def crispArguments {α : Type} [Scalar α] (u : SourceUnit α) (d : NumericDomain α)
    (values : String → α) : List α :=
  d.low :: d.high :: Mesh.argument d.steps :: u.inputs.map values

/-- All integers that come up in the function for the centroid are of 32 bits: in the number of
points and their distance, and pass by pass in the points and the counter. -/
def FitsInt {α : Type} [Scalar α] (functions : Functions α) (u : SourceUnit α)
    (arguments : List α) : Prop :=
  ∃ (n : Int) (distance : Value α) (env : Environment α),
    Yields functions (bindParameters u.crispFunction.parameters arguments) 8 u.mesh.count
      (.whole n) ∧
    Yields functions ((bindParameters u.crispFunction.parameters arguments).set "n" (.whole n)) 8
      u.mesh.step distance ∧
    runBody functions (bindParameters u.crispFunction.parameters arguments) u.setup =
      some (.going env) ∧
    ∀ k : Nat, k < n → (Value.whole (k + 1) : Value α).FitsInt ∧ ∃ before point,
      runPasses functions "i" u.pass env k = some (.going before) ∧
        Yields functions (before.set "i" (.whole k)) 8 u.mesh.point point

end SourceUnit

section Parameters

variable {α : Type} {names : List String} {values : String → α}

/-- A parameter stands for the value that goes with its name. -/
theorem bindParameters_map {name : String} (h : name ∈ names) :
    bindParameters names (names.map values) name = some (.floating (values name)) := by
  induction names with
  | nil => cases h
  | cons first names ih =>
    rw [List.map_cons, bindParameters, Environment.set]
    by_cases hname : name = first
    · rw [if_pos hname, hname]
    · rw [if_neg hname]
      exact ih ((List.mem_cons.mp h).resolve_left hname)

end Parameters

section Accepted

variable {s : FuzzySystem Exact} {function : String} {u : SourceUnit Exact} {v : Variable Exact}
  {d : NumericDomain Exact} {known : Functions Exact} {values : String → Exact}
  {mu : Exact → Exact}

/-- The loop of a unit is made for the mesh of the target, and only the centroid has one. -/
theorem SourceUnit.mesh_eq_of_ofSystem (hu : SourceUnit.ofSystem s function = .ok u)
    (hv : s.targetVariable = .ok v) (hd : v.domain = .numeric d) :
    u.mesh = .ofSteps d.steps ∧ s.context.defuzzification = .centroid := by
  obtain ⟨-, h⟩ := check_bind_eq_ok_iff.mp hu
  by_cases hm : s.context.defuzzification = .centroid
  · simp only [hm, ne_eq, not_true_eq_false, if_false, hv, mapError_ok, ok_bind, hd] at h
    obtain ⟨-, h⟩ := check_bind_eq_ok_iff.mp h
    obtain ⟨-, h⟩ := check_bind_eq_ok_iff.mp h
    obtain ⟨degree, -, ⟨⟩⟩ := bind_eq_ok_iff.mp h
    exact ⟨rfl, hm⟩
  · simp only [hm, ne_eq, not_false_eq_true, if_true] at h
    cases h

/-- What the function for the centroid is called with suits it. -/
theorem SourceUnit.prepared (hu : SourceUnit.ofSystem s function = .ok u)
    (hv : s.targetVariable = .ok v) (hd : v.domain = .numeric d)
    (hlen : d.mesh.length < 2 ^ 31)
    (hmu : ∀ x ∈ d.mesh, known u.function (x :: u.inputs.map values) = some (mu x)) :
    Prepared known u d mu values
      (bindParameters u.crispFunction.parameters (u.crispArguments d values)) := by
  obtain ⟨husable, -, -, -, -, hi, -, hfunction, -, hinputs, -⟩ := SourceUnit.of_ofSystem hu
  have hunreserved {name : String} (h : isUsable name = true) : name ∉ reservedNames :=
    (isUsable_eq_true_iff.mp h).not_reserved
  have hlocals : crispLocals ⊆ reservedNames := by decide
  have hparameters : ["min_val", "max_val", "steps"] ⊆ reservedNames := by decide
  have hinput : ∀ name ∈ u.inputs, isUsable name = true := by
    rw [hinputs, List.forall_mem_map]
    exact isUsable_of_requireInputs hi
  have hskip {name : String} (h : name ∉ reservedNames) :
      bindParameters u.crispFunction.parameters (u.crispArguments d values) name =
        bindParameters u.inputs (u.inputs.map values) name := by
    have hne : ∀ t ∈ ["min_val", "max_val", "steps"], name ≠ t :=
      fun t ht heq ↦ h (hparameters (heq ▸ ht))
    show ((Environment.set _ _ _).set _ _).set _ _ name = _
    rw [Environment.set_of_ne (hne _ (by simp)), Environment.set_of_ne (hne _ (by simp)),
      Environment.set_of_ne (hne _ (by simp))]
  constructor
  · exact (mesh_eq_of_ofSystem hu hv hd).1
  · exact hlen
  · rfl
  · rfl
  · intro name hname
    have hname' := hunreserved (hinput name hname)
    exact ⟨fun hlocal ↦ hname' (hlocals hlocal), (hskip hname').trans (bindParameters_map hname)⟩
  · have hname := hunreserved husable
    rw [hfunction]
    refine ⟨fun hlocal ↦ hname (hlocals hlocal), (hskip hname).trans ?_⟩
    refine bindParameters_eq_none ?_ _
    rw [hinputs, List.mem_map]
    rintro ⟨w, hw, heq⟩
    exact (requireParameter_eq_ok_iff.mp (requireInputs_eq_ok_iff.mp hi w hw).2).1.1 heq
  · exact hmu

/-- The number of points that a unit counts is that of the mesh. -/
theorem SourceUnit.count_yields (hu : SourceUnit.ofSystem s function = .ok u)
    (hv : s.targetVariable = .ok v) (hd : v.domain = .numeric d) (hvalid : d.validate = .ok ())
    (hlen : d.mesh.length < 2 ^ 31)
    (hceil : ∀ h, d.steps = .size h → ∀ x, known "ceil" [x] = some (ceiling x)) :
    Yields known (bindParameters u.crispFunction.parameters (u.crispArguments d values)) 8
      u.mesh.count (.whole d.mesh.length) := by
  obtain ⟨-, -, -, -, -, hi, -, -, -, hinputs, -⟩ := SourceUnit.of_ofSystem hu
  have hnone : bindParameters u.crispFunction.parameters (u.crispArguments d values) "ceil" =
      none := by
    refine bindParameters_eq_none (fun hmem ↦ ?_) _
    have hmem : "ceil" ∈ u.inputs := by simpa [crispFunction] using hmem
    rw [hinputs, List.mem_map] at hmem
    obtain ⟨w, hw, hname⟩ := hmem
    have husable := isUsable_of_requireInputs hi w hw
    rw [hname] at husable
    exact absurd husable (by decide)
  rw [(mesh_eq_of_ofSystem hu hv hd).1, length_mesh]
  exact CSource.count_yields (NumericDomain.validate_eq_ok_iff.mp hvalid)
    (length_mesh (d := d) ▸ hlen) hceil hnone rfl rfl rfl

/-- All integers that come up in the function for the centroid are of 32 bits if the mesh has fewer
than 2^31 points. -/
theorem SourceUnit.fitsInt (hp : Prepared known u d mu values
      (bindParameters u.crispFunction.parameters (u.crispArguments d values)))
    (hcount : Yields known (bindParameters u.crispFunction.parameters (u.crispArguments d values)) 8
      u.mesh.count (.whole d.mesh.length)) :
    u.FitsInt known (u.crispArguments d values) := by
  obtain ⟨env, hsetup, hpassed⟩ := Passed.setup hp (hcount.valueOf_eq (Nat.le_refl 8)) rfl
  have hlt := hp.length_lt
  refine ⟨d.mesh.length, .floating (Mesh.distance d.low d.high d.steps), env, hcount, ?_, hsetup,
    ?_⟩
  · rw [hp.mesh_eq, length_mesh]
    exact step_yields rfl rfl rfl rfl (length_mesh (d := d) ▸ hlt)
  · intro k hk
    have hk : k < d.mesh.length := by exact_mod_cast hk
    obtain ⟨before, hbefore, h⟩ := hpassed.loop hp k hk.le
    refine ⟨⟨by omega, by omega⟩, before, .floating (Mesh.point d.low d.high d.steps k), hbefore,
      ?_⟩
    rw [hp.mesh_eq]
    exact point_yields (h.overMesh hp) rfl (length_mesh (d := d) ▸ hk)

/-- The functions that a unit defines, on top of functions that are there without it. -/
noncomputable def SourceUnit.definedOn (u : SourceUnit Exact) (base : Functions Exact) :
    Functions Exact :=
  u.functions.foldl Functions.extend base

/-- What no function defines anew is what it is. -/
theorem foldl_extend_eq {functions : List (Function Exact)} {base : Functions Exact} {name : String}
    (hn : name ∉ functions.map (·.name)) :
    functions.foldl Functions.extend base name = base name := by
  induction functions generalizing base with
  | nil => rfl
  | cons f functions ih =>
    rw [List.map_cons, List.mem_cons, not_or] at hn
    rw [List.foldl_cons, ih hn.2]
    funext arguments
    exact if_neg hn.1

/-- The functions of a unit up to that for the degree, on top of others. -/
noncomputable def SourceUnit.knownOn (u : SourceUnit Exact) (base : Functions Exact) :
    Functions Exact :=
  (prelude ++ [u.degreeFunction]).foldl Functions.extend base

/-- The function for the centroid is the last one of a unit. -/
theorem SourceUnit.definedOn_eq (u : SourceUnit Exact) (base : Functions Exact) :
    u.definedOn base = (u.knownOn base).extend u.crispFunction := by
  have hfunctions : u.functions = prelude ++ [u.degreeFunction] ++ [u.crispFunction] := rfl
  rw [definedOn, hfunctions, List.foldl_concat, knownOn]

/-- A unit does not define how to round up. -/
theorem SourceUnit.knownOn_ceil (hu : SourceUnit.ofSystem s function = .ok u)
    (base : Functions Exact) : u.knownOn base "ceil" = base "ceil" := by
  obtain ⟨husable, -, -, -, -, -, -, hfunction, -⟩ := SourceUnit.of_ofSystem hu
  apply foldl_extend_eq
  rw [List.map_append, List.mem_append, not_or]
  refine ⟨by decide, fun hmem ↦ ?_⟩
  have hname : "ceil" = u.function := List.mem_singleton.mp hmem
  rw [← hfunction, ← hname] at husable
  exact absurd husable (by decide)

/-- The points of a valid mesh are numbers. -/
theorem isFinite_of_mem_mesh (hvalid : d.validate = .ok ()) :
    ∀ x ∈ d.mesh, Scalar.isFinite x = true := by
  obtain ⟨_, _, xs, hxs⟩ := d.exists_sampledAt (NumericDomain.validate_eq_ok_iff.mp hvalid)
  rw [hxs.mesh_eq, List.forall_mem_map]
  exact fun _ _ ↦ rfl

/-- The function for the centroid returns the centroid of degrees that are not negative. -/
theorem SourceUnit.returns_centroid (hu : SourceUnit.ofSystem s function = .ok u)
    (hv : s.targetVariable = .ok v) (hd : v.domain = .numeric d) (hvalid : d.validate = .ok ())
    (hlen : d.mesh.length < 2 ^ 31)
    (hceil : ∀ h, d.steps = .size h → ∀ x, known "ceil" [x] = some (ceiling x))
    (hmu : ∀ x ∈ d.mesh, known u.function (x :: u.inputs.map values) = some (mu x))
    (hnonneg : ∀ x ∈ d.mesh, 0 ≤ mu x) :
    u.crispFunction.result known (u.crispArguments d values) =
      some (Defuzzification.centroid.reduce d.mesh (d.mesh.map mu)) := by
  have hcount : Yields known
      (bindParameters u.crispFunction.parameters (u.crispArguments d values)) 8 u.mesh.count _ :=
    count_yields hu hv hd hvalid hlen hceil
  rw [zero_eq] at hnonneg
  rw [Defuzzification.centroid_eq_div (List.length_map _).symm (isFinite_of_mem_mesh hvalid)
    (List.forall_mem_map.mpr hnonneg)]
  exact crispFunction_result (prepared hu hv hd hlen hmu) (hcount.valueOf_eq (Nat.le_refl 8)) rfl
    (by simp [crispArguments, crispFunction])

/-! ### Main results -/

/-- A unit for a system whose target has a valid interval of fewer than 2^31 points: on top of every
function for the degree that is not negative on the mesh, the function for the centroid visits the
points of the mesh in order, needs no integers of more than 32 bits, and returns their centroid;
that is no number exactly where zero is divided by zero, if the degrees are numbers. If the unit's
own function returns the degrees in the output of the system, it returns the crisp output. The text
of the unit ends with lines that are read as this function, and it is read as the functions of the
unit where all of its numbers are read back. -/
theorem SourceUnit.crisp_eq_centroid (hu : SourceUnit.ofSystem s function = .ok u)
    (hv : s.targetVariable = .ok v) (hd : v.domain = .numeric d) (hvalid : d.validate = .ok ())
    (hlen : d.mesh.length < 2 ^ 31) :
    (∀ (known : Functions Exact) (values : String → Exact) (mu : Exact → Exact),
      (∀ h, d.steps = .size h → ∀ x, known "ceil" [x] = some (ceiling x)) →
      (∀ x ∈ d.mesh, known u.function (x :: u.inputs.map values) = some (mu x)) →
      (∀ x ∈ d.mesh, 0 ≤ mu x) →
        u.visited known (u.crispArguments d values) = some (d.mesh.map some) ∧
        u.FitsInt known (u.crispArguments d values) ∧
        u.crispFunction.result known (u.crispArguments d values) =
          some (Defuzzification.centroid.reduce d.mesh (d.mesh.map mu)) ∧
        ((∀ x ∈ d.mesh, Scalar.isFinite (mu x) = true) →
          (Defuzzification.centroid.reduce d.mesh (d.mesh.map mu) = nan ↔
            Defuzzification.moments d.mesh (d.mesh.map mu) = (0, 0)))) ∧
    (∀ (base : Functions Exact) (values : String → Exact) (inputs : Assignment Exact)
      (set : FuzzySet Exact),
      (∀ h, d.steps = .size h → ∀ x, base "ceil" [x] = some (ceiling x)) →
      s.output inputs s.context = .ok set →
      (∀ x ∈ d.mesh, u.definedOn base u.function (x :: u.inputs.map values) =
        some (set.degree s.context (.number x)) ∧ 0 ≤ set.degree s.context (.number x)) →
        ∃ y, u.definedOn base (crispName u.function) (u.crispArguments d values) = some y ∧
          s.crisp inputs s.context = .ok (.number y)) ∧
    (∀ sp : Spelling Exact, sp.Common →
      (∃ before, (u.text sp.write).toList = before ++ ofLines (u.crispFunction.lines sp.write)) ∧
        (words? sp.read (ofLines (u.crispFunction.lines sp.write))).bind functions? =
          some [u.crispFunction.withoutGaps] ∧
        ∀ (known : Functions Exact) (arguments : List Exact),
          u.crispFunction.withoutGaps.result known arguments =
            u.crispFunction.result known arguments) ∧
    ∀ (r : Registry Exact) (handles : List Handle) (rules : RuleBase Exact) (target : Handle)
      (s₀ : FuzzySystem Exact) (ctx : Context),
      FuzzySystem.build r handles rules target = .ok s₀ → s = s₀.withContext ctx →
        ∀ sp : Spelling Exact, u.ReadsBack sp → ∃ before,
          readUnit? sp.read (u.text sp.write) = some (before ++ [u.crispFunction.withoutGaps]) ∧
            ∀ base : Functions Exact,
              (before ++ [u.crispFunction.withoutGaps]).foldl Functions.extend base =
                u.definedOn base := by
  refine ⟨?_, ?_, ?_, ?_⟩
  · intro known values mu hceil hmu hnonneg
    have hp := prepared hu hv hd hlen hmu
    have hcount : Yields known
        (bindParameters u.crispFunction.parameters (u.crispArguments d values)) 8 u.mesh.count _ :=
      count_yields hu hv hd hvalid hlen hceil
    refine ⟨visited_eq hp (hcount.valueOf_eq (Nat.le_refl 8)) rfl, fitsInt hp hcount,
      returns_centroid hu hv hd hvalid hlen hceil hmu hnonneg, fun hnumbers ↦ ?_⟩
    rw [zero_eq] at hnonneg ⊢
    exact Defuzzification.centroid_eq_nan_iff (List.length_map _).symm (isFinite_of_mem_mesh hvalid)
      (List.forall_mem_map.mpr hnonneg) (List.forall_mem_map.mpr hnumbers)
  · intro base values inputs set hceil ho hset
    have hceil : ∀ h, d.steps = .size h → ∀ x, u.knownOn base "ceil" [x] = some (ceiling x) := by
      rw [knownOn_ceil hu]
      exact hceil
    have hmu : ∀ x ∈ d.mesh, u.knownOn base u.function (x :: u.inputs.map values) =
        some (set.degree s.context (.number x)) := by
      intro x hx
      rw [← (hset x hx).1, definedOn_eq]
      exact (if_neg (ne_crispName u.function)).symm
    refine ⟨Defuzzification.centroid.reduce d.mesh (d.degrees set s.context), ?_, ?_⟩
    · rw [definedOn_eq]
      exact (if_pos rfl).trans (returns_centroid hu hv hd hvalid hlen hceil hmu fun x hx ↦
        (hset x hx).2)
    · rw [FuzzySystem.crisp_numeric hv hd ho, (mesh_eq_of_ofSystem hu hv hd).2]
  · intro sp hsp
    obtain ⟨hsound, hread⟩ := crispFunction_asRead hu hsp
    refine ⟨exists_toList_text u sp.write, hread ▸ functions?_lines hsound,
      fun known arguments ↦ ?_⟩
    rw [← hread]
    exact Function.result_asRead hsound known arguments
  · rintro r handles rules target s₀ ctx hb rfl sp hsp
    have hsound := functions_sound hb hu hsp
    have hfunctions : u.functions.map (Function.asRead sp) =
        (prelude ++ [u.degreeFunction]).map (Function.asRead sp) ++
          [u.crispFunction.withoutGaps] := by
      rw [← (crispFunction_asRead hu hsp.common).2]
      simp [functions]
    refine ⟨_, hfunctions ▸ readUnit?_text hsound, fun base ↦ ?_⟩
    rw [← hfunctions]
    exact foldl_extend_asRead hsound base

end Accepted

private theorem cautious_mesh : ∃ v d, cautious.targetVariable = .ok v ∧ v.domain = .numeric d ∧
    d.steps = .count 2 ∧ d.validate = .ok () ∧ d.mesh = [.number 0, .number 1] := by
  refine ⟨_, ⟨"fan", .number 0, .number 1, .count 2⟩, rfl, rfl, rfl, ?_, ?_⟩
  · simp [NumericDomain.validate, Exact.isFinite_iff]
  · show Mesh.counted (number 0) (number 1) 2 = _
    rw [Mesh.counted_number]
    norm_num [List.range_succ]

private theorem cautious_agrees {u : SourceUnit Exact}
    (hu : SourceUnit.ofSystem (cautious.withContext {}) "speed" = .ok u) :
    ∃ set, cautious.output (heated 3) {} = .ok set ∧ ∀ x : ℝ,
      u.definedOn library u.function (.number x :: u.inputs.map fun _ ↦ .number 3) =
        some (set.degree {} (.number (.number x))) ∧ 0 ≤ set.degree {} (.number (.number x)) := by
  have hbalanced : ∀ rule ∈ cautious.rules.rules,
      rule.antecedent.Balanced cautious.registry (heated 3) {} := by
    intro rule hrule
    rw [List.mem_singleton.mp hrule]
    exact ⟨⟨trivial, trivial⟩, nofun⟩
  have hinputs : u.inputs = ["heat"] := by
    obtain ⟨-, -, -, -, -, -, -, -, -, hinputs, -⟩ := SourceUnit.of_ofSystem hu
    exact hinputs
  refine ⟨_, rfl, fun x ↦ ⟨?_, ?_⟩⟩
  · obtain ⟨written, hw, hr⟩ := SourceUnit.returns_written build_cautious hu (givenRow_heated 3) x
    rw [RuleBase.writtenOutput_eq hbalanced] at hw
    cases hw
    rw [hinputs]
    exact hr
  · show 0 ≤ number 1 * Scalar.min (1 - number (1 / (1 + 1))) (number 1)
    rw [one_eq, zero_eq, number_sub, min_number, number_mul, number_le]
    norm_num

/-- The exact numbers that stand in every unit are read back. -/
theorem exactSpelling_common : exactSpelling.Common := by
  have hsmall : ∀ x ∈ (smallNumbers : List Exact), ∃ n ≤ 2, x = .number (n : Nat) := by
    simp only [smallNumbers, List.forall_mem_cons]
    exact ⟨⟨0, by decide, rfl⟩, ⟨1, by decide, rfl⟩, ⟨2, by decide, rfl⟩, nofun⟩
  constructor <;> intro x hx <;> obtain ⟨n, hn, rfl⟩ := hsmall x hx
  · exact (exactSpelling_small hn).1
  · exact (exactSpelling_small hn).2

private theorem cautious_readsBack {u : SourceUnit Exact}
    (hu : SourceUnit.ofSystem (cautious.withContext {}) "speed" = .ok u) :
    u.ReadsBack exactSpelling := by
  have hzero : exactSpelling.ReadsBack 0 :=
    exactSpelling_common.readsBack 0 (by simp [smallNumbers])
  have hone : exactSpelling.ReadsBack 1 :=
    exactSpelling_common.readsBack 1 (by simp [smallNumbers])
  have hhalf := exactSpelling_decimal 5 (-1) (y := 1 / (1 + 1))
    (isFloatingConstant_digits '0' '5' (by decide) (by decide)) rfl (by norm_num)
  have hconstant : ∀ v ∈ cautious.registry.members, ∀ s ∈ v.labels.values,
      ∃ x, s = .constant x ∧ exactSpelling.ReadsBack x := by
    intro v hv s hs
    rcases cautious_labels v hv s hs with rfl | rfl
    · exact ⟨_, rfl, hhalf.1⟩
    · exact ⟨_, rfl, one_eq ▸ hone⟩
  have hsupplies : RegistrySupplies exactSpelling.ReadsBack cautious.registry := by
    intro v hv s hs
    obtain ⟨x, rfl, hx⟩ := hconstant v hv s hs
    exact ⟨by simpa [FuzzySet.numbers] using hx, by simp [FuzzySet.nodes]⟩
  have hdegree : u.degree.Writes exactSpelling.ReadsBack := by
    obtain ⟨-, v, _, -, -, -, ho, -⟩ := SourceUnit.of_ofSystem hu
    refine (writes_output_iff hzero hone hsupplies ?_ ?_ ho).mpr ?_
    · intro rule hrule ps hm
      rw [List.mem_singleton.mp hrule] at hm
      simp [Proposition.nodes, Proposition.nodesAll] at hm
    · intro rule hrule
      rw [List.mem_singleton.mp hrule]
      exact one_eq ▸ hone
    · rintro rule - a - s hs table hm
      obtain ⟨v, hv, hs⟩ := bind_eq_ok_iff.mp hs
      obtain ⟨x, rfl, -⟩ :=
        hconstant v (Registry.mem_of_get hv) s (Variable.mem_values_of_get hs)
      simp [FuzzySet.nodes] at hm
  exact ⟨hdegree, exactSpelling_common⟩

/-- The fan is given its crisp output, over a mesh of two points, and its unit is read back. -/
theorem cautious_crisp_eq_centroid :
    ∃ u v d set y, SourceUnit.ofSystem (cautious.withContext {}) "speed" = .ok u ∧
      cautious.targetVariable = .ok v ∧ v.domain = .numeric d ∧ d.validate = .ok () ∧
      d.mesh = [.number 0, .number 1] ∧ cautious.output (heated 3) {} = .ok set ∧
      (∀ x ∈ d.mesh, u.definedOn library u.function (x :: u.inputs.map fun _ ↦ .number 3) =
        some (set.degree {} (.number x)) ∧ 0 ≤ set.degree {} (.number x)) ∧
      u.definedOn library (crispName u.function) (u.crispArguments d fun _ ↦ .number 3) = some y ∧
      cautious.crisp (heated 3) {} = .ok (.number y) ∧ exactSpelling.Common ∧
      (words? exactSpelling.read (ofLines (u.crispFunction.lines exactSpelling.write))).bind
        functions? = some [u.crispFunction.withoutGaps] ∧
      u.ReadsBack exactSpelling ∧ ∃ before,
        readUnit? exactSpelling.read (u.text exactSpelling.write) =
          some (before ++ [u.crispFunction.withoutGaps]) := by
  obtain ⟨u, hu⟩ := exists_unit_cautious .maximum
  obtain ⟨v, d, hv, hd, hsteps, hvalid, hmesh⟩ := cautious_mesh
  obtain ⟨set, ho, hdegree⟩ := cautious_agrees hu
  have hlen : d.mesh.length < 2 ^ 31 := by
    rw [hmesh]
    decide
  have hagree : ∀ x ∈ d.mesh, u.definedOn library u.function (x :: u.inputs.map fun _ ↦ .number 3) =
      some (set.degree {} (.number x)) ∧ 0 ≤ set.degree {} (.number x) := by
    rw [hmesh]
    simp only [List.forall_mem_cons, List.not_mem_nil, false_implies, implies_true, and_true]
    exact ⟨hdegree 0, hdegree 1⟩
  have hreads := cautious_readsBack hu
  obtain ⟨-, hcrisp, hlines, htext⟩ := SourceUnit.crisp_eq_centroid hu hv hd hvalid hlen
  have hceil : ∀ h, d.steps = .size h → ∀ x, library "ceil" [x] = some (ceiling x) := by
    intro h hstepped
    rw [hsteps] at hstepped
    cases hstepped
  obtain ⟨y, hy, hy'⟩ := hcrisp library (fun _ ↦ .number 3) (heated 3) set hceil ho hagree
  obtain ⟨before, hunit, -⟩ :=
    htext _ _ _ _ cautious {} build_cautious rfl exactSpelling hreads
  exact ⟨u, v, d, set, y, hu, hv, hd, hvalid, hmesh, ho, hagree, hy, hy', hreads.common,
    (hlines exactSpelling hreads.common).2.1, hreads, before, hunit⟩

/-! ### Machine numbers -/

/-- The machine numbers that stand in every unit are read back. -/
theorem machineSpelling_common : machineSpelling.Common := by
  have hsmall : ∀ x ∈ (smallNumbers : List Float), x.isFinite = true ∧
      Scalar.ofText? (Layout.literal.render x).toList = some x ∧
        machineSpelling.signed x = false := by
    decide +kernel
  exact ⟨fun x hx ↦ machineSpelling_readsBack (hsmall x hx).1 (hsmall x hx).2.1,
    fun x hx ↦ (hsmall x hx).2.2⟩

/-- The text for a system over machine numbers ends with lines that are read as the function for the
centroid. -/
theorem ofSystem_reads_crispFunction {s : FuzzySystem Float} {function text : String}
    (h : ofSystem s function = .ok text) :
    ∃ u before, SourceUnit.ofSystem s function = .ok u ∧
      text.toList = before ++ ofLines (u.crispFunction.lines Layout.literal.render) ∧
        (words? Scalar.ofText? (ofLines (u.crispFunction.lines Layout.literal.render))).bind
          functions? = some [u.crispFunction.withoutGaps] := by
  obtain ⟨u, hu, htext⟩ := bind_eq_ok_iff.mp h
  obtain rfl : u.text Layout.literal.render = text := Except.ok.inj htext
  obtain ⟨before, hbefore⟩ := exists_toList_text u Layout.literal.render
  obtain ⟨hsound, hread⟩ := SourceUnit.crispFunction_asRead hu machineSpelling_common
  exact ⟨u, before, hu, hbefore, hread ▸ functions?_lines hsound⟩

end CSource

end FuzzyInference
