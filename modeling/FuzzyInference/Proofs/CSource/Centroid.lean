import FuzzyInference.Proofs.CSource.Acceptance
import FuzzyInference.Proofs.CSource.MeshLoop
import FuzzyInference.Proofs.CSource.Prelude
import FuzzyInference.Proofs.Centroid

/-!
# The generated centroid

The function that is generated for the centroid runs over the mesh of the target's domain, point by
point, and returns the centroid of whatever the function for the degree returns there.
-/

namespace FuzzyInference.CSource

open Value

/-! ### The loop -/

section Loop

variable {α : Type} [Scalar α]

namespace SourceUnit

/-- What the function for the centroid does before its loop. -/
def setup (u : SourceUnit α) : List (Statement α) :=
  [.whole "n" u.mesh.count,
    .floating [("step", u.mesh.step)],
    .floating [("num", literal 0), ("den", literal 0)],
    .index "i",
    .gap]

/-- What the function for the centroid does in a pass of its loop. -/
def pass (u : SourceUnit α) : List (Statement α) :=
  [.floating [("x", u.mesh.point)],
    .floating [("mu", .call u.function (("x" :: u.inputs).map fun s => [.name s]))],
    .increase "num" [.name "x", .times, .name "mu"],
    .increase "den" [.name "mu"]]

omit [Scalar α] in
/-- The function for the centroid returns the quotient of the sums behind the loop. -/
theorem crispFunction_body [Scalar α] (u : SourceUnit α) : u.crispFunction.body =
    u.setup ++ .loop "i" "n" u.pass :: [.gap, .result [.name "num", .slash, .name "den"]] := rfl

/-- The number that a local has after some passes of the loop. -/
noncomputable def afterPasses (functions : Functions α) (u : SourceUnit α) (env : Environment α)
    (name : String) (k : Nat) : Option α := do
  match ← runPasses functions "i" u.pass env k with
  | .returned _ => none
  | .going env => return (← env name).toFloating

/-- The points that the loop of the function for the centroid visits: the local for the point,
behind one pass after the other. -/
noncomputable def visited (functions : Functions α) (u : SourceUnit α) (arguments : List α) :
    Option (List (Option α)) := do
  match ← runBody functions (bindParameters u.crispFunction.parameters arguments) u.setup with
  | .returned _ => none
  | .going env =>
    return (List.range (← env "n").toWhole.toNat).map fun k ↦
      u.afterPasses functions env "x" (k + 1)

end SourceUnit

/-- The names of the locals of the function for the centroid. -/
def crispLocals : List String := ["n", "step", "num", "den", "i", "x", "mu"]

/-- What the environment is after a number of passes: parameters stand for what they stood for, and
the sums are the moments of the points visited so far. -/
structure Passed (parameters : Environment α) (d : NumericDomain α) (mu : α → α) (k : Nat)
    (env : Environment α) : Prop where
  /-- The parameters have not changed. -/
  parameters_eq : ∀ s, s ∉ crispLocals → env s = parameters s
  /-- The number of points. -/
  length_eq : env "n" = some (.whole (Mesh.length d.low d.high d.steps))
  /-- Their distance. -/
  distance_eq : env "step" = some (.floating (Mesh.distance d.low d.high d.steps))
  /-- The sum of the points, weighted by their degrees. -/
  weighted_eq : env "num" =
    some (.floating (Defuzzification.moments (d.mesh.take k) ((d.mesh.take k).map mu)).1)
  /-- The sum of the degrees. -/
  total_eq : env "den" =
    some (.floating (Defuzzification.moments (d.mesh.take k) ((d.mesh.take k).map mu)).2)
  /-- The point visited last. -/
  point_eq : ∀ j, k = j + 1 → ∀ h : j < d.mesh.length, env "x" = some (.floating d.mesh[j])

variable {functions : Functions α} {parameters env : Environment α} {u : SourceUnit α}
  {d : NumericDomain α} {mu : α → α} {k : Nat}

/-- The mesh has as many points as its length says. -/
theorem length_mesh : d.mesh.length = Mesh.length d.low d.high d.steps := by
  rw [NumericDomain.mesh, Mesh.points_eq_map, List.length_map, List.length_range]

/-- The point of the mesh at an index. -/
theorem getElem_mesh (h : k < d.mesh.length) : d.mesh[k] = Mesh.point d.low d.high d.steps k := by
  simp [NumericDomain.mesh, Mesh.points_eq_map]

/-- The environment that the function for the centroid is run in, and what it can rely on there: the
bounds of the interval, the inputs, and the function for the degree. -/
structure Prepared (functions : Functions α) (u : SourceUnit α) (d : NumericDomain α) (mu : α → α)
    (values : String → α) (parameters : Environment α) : Prop where
  /-- The loop is made for the mesh. -/
  mesh_eq : u.mesh = .ofSteps d.steps
  /-- The number of points fits into an integer. -/
  length_lt : d.mesh.length < 2 ^ 31
  /-- The lower bound. -/
  low_eq : parameters "min_val" = some (.floating d.low)
  /-- The upper bound. -/
  high_eq : parameters "max_val" = some (.floating d.high)
  /-- The inputs have values, and no locals take their names. -/
  inputs_eq : ∀ s ∈ u.inputs, s ∉ crispLocals ∧ parameters s = some (.floating (values s))
  /-- Nothing takes the name of the function for the degree. -/
  function_eq : u.function ∉ crispLocals ∧ parameters u.function = none
  /-- That function returns the degrees of the points. -/
  call_eq : ∀ x ∈ d.mesh, functions u.function (x :: u.inputs.map values) = some (mu x)

private theorem passes_names {names : List String} {values : String → α}
    (h : ∀ s ∈ names, env s = some (.floating (values s))) :
    List.Forall₂ (Passes functions env) (names.map fun s ↦ [.name s]) (names.map values) := by
  rw [List.forall₂_map_left_iff, List.forall₂_map_right_iff, List.forall₂_same]
  intro s hs
  exact (Means.name (h s hs)).passes (by decide)

/-- What a pass of the loop makes of an environment, from the point, its degree and the sums. -/
def afterPass (env : Environment α) (x m weighted total : α) : Environment α :=
  (((env.set "x" (.floating x)).set "mu" (.floating m)).set "num"
    (.floating (weighted + x * m))).set "den" (.floating (total + m))

omit [Scalar α] in
private theorem afterPass_of_ne [Scalar α] {x m w t : α} {s : String}
    (hs : s ∉ ["x", "mu", "num", "den"]) : afterPass env x m w t s = env s := by
  simp only [List.mem_cons, List.not_mem_nil, not_or, or_false] at hs
  obtain ⟨hx, hm, hn, hd⟩ := hs
  rw [afterPass, Environment.set_of_ne hd, Environment.set_of_ne hn, Environment.set_of_ne hm,
    Environment.set_of_ne hx]

private theorem run_pass {x m w t : α}
    (hx : valueOf functions env u.mesh.point = some (.floating x))
    (hm : valueOf functions (env.set "x" (.floating x))
      (.call u.function (("x" :: u.inputs).map fun s ↦ [.name s])) = some (.floating m))
    (hw : env "num" = some (.floating w)) (ht : env "den" = some (.floating t)) :
    runBody functions env u.pass = some (.going (afterPass env x m w t)) := by
  generalize hsampled : (env.set "x" (.floating x)).set "mu" (.floating m) = sampled
  have hpoint : Means functions sampled 0 [.name "x"] x := .name (by rw [← hsampled]; rfl)
  have hdegree : Means functions sampled 0 [.name "mu"] m := .name (by rw [← hsampled]; rfl)
  have hweighted : sampled "num" = some (.floating w) := by
    rw [← hsampled]
    exact hw
  have hproduct : valueOf functions sampled [.name "x", .times, .name "mu"] =
      some (.floating (x * m)) :=
    ((hpoint.of_le (by decide)).times (hdegree.of_le (by decide))).valueOf_eq (by decide)
  generalize hincreased : sampled.set "num" (.floating (w + x * m)) = increased
  have hdegree : Means functions increased 0 [.name "mu"] m :=
    .name (by rw [← hincreased, ← hsampled]; rfl)
  have htotal : increased "den" = some (.floating t) := by
    rw [← hincreased, ← hsampled]
    exact ht
  rw [afterPass, hsampled, hincreased, SourceUnit.pass, runBody_cons (run_floating hx),
    runBody_cons (run_floating hm), hsampled, runBody_cons (run_increase hweighted hproduct),
    hincreased, runBody_cons (run_increase htotal (hdegree.valueOf_eq (by decide)))]
  rfl

/-- The index of a pass leaves the mesh as it was. -/
theorem Passed.overMesh {values : String → α} {i : Value α}
    (hp : Prepared functions u d mu values parameters) (h : Passed parameters d mu k env) :
    OverMesh (env.set "i" i) d.low d.high d.steps where
  low_eq := (h.parameters_eq "min_val" (by decide)).trans hp.low_eq
  high_eq := (h.parameters_eq "max_val" (by decide)).trans hp.high_eq
  length_eq := h.length_eq
  length_lt := length_mesh (d := d) ▸ hp.length_lt
  distance_eq := h.distance_eq

/-- A pass visits the next point and adds its degree to the sums. -/
theorem Passed.pass {values : String → α} (hp : Prepared functions u d mu values parameters)
    (h : Passed parameters d mu k env) (hk : k < d.mesh.length) :
    ∃ env', runBody functions (env.set "i" (.whole k)) u.pass = some (.going env') ∧
      Passed parameters d mu (k + 1) env' := by
  have hkept (s : String) (hs : s ∉ crispLocals) (x : α) :
      ((env.set "i" (.whole k)).set "x" (.floating x)) s = parameters s := by
    have hne : s ≠ "x" ∧ s ≠ "i" := by
      constructor <;> rintro rfl <;> exact hs (by decide)
    rw [Environment.set_of_ne hne.1, Environment.set_of_ne hne.2, h.parameters_eq s hs]
  have hx : valueOf functions (env.set "i" (.whole k)) u.mesh.point =
      some (.floating d.mesh[k]) := by
    rw [hp.mesh_eq, getElem_mesh]
    exact (point_yields (h.overMesh hp) rfl (length_mesh (d := d) ▸ hk)).valueOf_eq (Nat.le_refl 8)
  have hm : valueOf functions ((env.set "i" (.whole k)).set "x" (.floating d.mesh[k]))
      (.call u.function (("x" :: u.inputs).map fun s ↦ [.name s])) =
      some (.floating (mu d.mesh[k])) := by
    refine (Means.call ?_ (by simp) (.cons ((Means.name rfl).passes (by decide))
      (passes_names fun s hs ↦ ?_)) (hp.call_eq _ (List.getElem_mem hk))).valueOf_eq (by decide)
    · rw [hkept _ hp.function_eq.1, hp.function_eq.2]
    · rw [hkept s (hp.inputs_eq s hs).1, (hp.inputs_eq s hs).2]
  have hlen : (d.mesh.take k).length = ((d.mesh.take k).map mu).length := (List.length_map _).symm
  have hmoments := Defuzzification.moments_concat hlen d.mesh[k] (mu d.mesh[k])
  rw [← List.map_singleton, ← List.map_append, List.take_append_getElem hk] at hmoments
  refine ⟨_, run_pass hx hm h.weighted_eq h.total_eq, ?_, h.length_eq, h.distance_eq, ?_, ?_, ?_⟩
  · intro s hs
    have hne : s ∉ ["x", "mu", "num", "den"] ∧ s ≠ "i" := by
      constructor
      · have hsub : ∀ s ∈ ["x", "mu", "num", "den"], s ∈ crispLocals := by decide
        exact fun hmem ↦ hs (hsub s hmem)
      · rintro rfl
        exact hs (by decide)
    rw [afterPass_of_ne hne.1, Environment.set_of_ne hne.2, h.parameters_eq s hs]
  · rw [hmoments]
    rfl
  · rw [hmoments]
    rfl
  · intro j hj hlt
    cases hj
    rfl

/-- Before the loop no point has been visited. -/
theorem Passed.setup {values : String → α} (hp : Prepared functions u d mu values parameters)
    (hcount : valueOf functions parameters u.mesh.count = some (.whole d.mesh.length))
    (hsteps : parameters "steps" = some (.floating (Mesh.argument d.steps))) :
    ∃ env, runBody functions parameters u.setup = some (.going env) ∧
      Passed parameters d mu 0 env := by
  generalize hcounted : parameters.set "n" (.whole d.mesh.length) = counted
  have hkept (s : String) (hs : s ≠ "n") : counted s = parameters s := by
    rw [← hcounted, Environment.set_of_ne hs]
  have hn : counted "n" = some (.whole (Mesh.length d.low d.high d.steps)) := by
    rw [← hcounted, Environment.set_self, length_mesh]
  have hstep : valueOf functions counted u.mesh.step =
      some (.floating (Mesh.distance d.low d.high d.steps)) := by
    rw [hp.mesh_eq]
    exact (step_yields ((hkept _ (by decide)).trans hp.low_eq)
      ((hkept _ (by decide)).trans hp.high_eq) ((hkept _ (by decide)).trans hsteps) hn
      (length_mesh (d := d) ▸ hp.length_lt)).valueOf_eq (Nat.le_refl 8)
  have hzero (env : Environment α) : valueOf functions env (literal 0) = some (.floating 0) :=
    (Means.number 0).valueOf_eq (by decide)
  have hsums (env : Environment α) :
      (Statement.floating [("num", literal 0), ("den", literal 0)]).run functions env =
        some (.going ((env.set "num" (.floating 0)).set "den" (.floating 0))) := by
    simp only [Statement.run, List.foldlM_cons, List.foldlM_nil, hzero]
    rfl
  refine ⟨((counted.set "step" (.floating (Mesh.distance d.low d.high d.steps))).set "num"
    (.floating 0)).set "den" (.floating 0), ?_, ?_, hn, rfl, rfl, rfl, ?_⟩
  · rw [SourceUnit.setup, runBody_cons (run_whole hcount), toWhole, hcounted,
      runBody_cons (run_floating hstep), runBody_cons (hsums _)]
    rfl
  · intro s hs
    simp only [crispLocals, List.mem_cons, List.not_mem_nil, not_or, or_false] at hs
    obtain ⟨hn, hstep, hnum, hden, -⟩ := hs
    rw [Environment.set_of_ne hden, Environment.set_of_ne hnum, Environment.set_of_ne hstep,
      hkept s hn]
  · intro j hj
    omega

/-- The loop visits one point of the mesh after the other, and behind it stand the moments of
all. -/
theorem Passed.loop {values : String → α} (hp : Prepared functions u d mu values parameters)
    (h : Passed parameters d mu 0 env) :
    ∀ k ≤ d.mesh.length, ∃ env', runPasses functions "i" u.pass env k = some (.going env') ∧
      Passed parameters d mu k env' :=
  runPasses_invariant h fun _ _ hk h ↦ h.pass hp hk

section Run

variable {values : String → α} {arguments : List α}
  (hp : Prepared functions u d mu values (bindParameters u.crispFunction.parameters arguments))
  (hcount : valueOf functions (bindParameters u.crispFunction.parameters arguments) u.mesh.count =
    some (.whole d.mesh.length))
  (hsteps : bindParameters u.crispFunction.parameters arguments "steps" =
    some (.floating (Mesh.argument d.steps)))

include hp hcount hsteps

/-- The points that the loop visits are those of the mesh. -/
theorem SourceUnit.visited_eq : u.visited functions arguments = some (d.mesh.map some) := by
  obtain ⟨env, hsetup, hpassed⟩ := Passed.setup hp hcount hsteps
  have hpoints : (List.range d.mesh.length).map
      (fun k ↦ u.afterPasses functions env "x" (k + 1)) = d.mesh.map some := by
    apply List.ext_getElem (by simp)
    intro k hk hk'
    have hlt : k < d.mesh.length := by simpa using hk
    obtain ⟨after, hafter, h⟩ := hpassed.loop hp (k + 1) hlt
    have hx : after "x" = some (.floating d.mesh[k]) := h.point_eq k rfl hlt
    simp [SourceUnit.afterPasses, hafter, hx, toFloating]
  rw [← hpoints, SourceUnit.visited, hsetup]
  simp [hpassed.length_eq, length_mesh, toWhole]

/-- The function for the centroid returns the quotient of the moments of the mesh. -/
theorem SourceUnit.crispFunction_result
    (hlen : arguments.length = u.crispFunction.parameters.length) :
    u.crispFunction.result functions arguments =
      some ((Defuzzification.moments d.mesh (d.mesh.map mu)).1 /
        (Defuzzification.moments d.mesh (d.mesh.map mu)).2) := by
  obtain ⟨env, hsetup, hpassed⟩ := Passed.setup hp hcount hsteps
  obtain ⟨after, hafter, h⟩ := hpassed.loop hp d.mesh.length (Nat.le_refl _)
  have hloop : (Statement.loop "i" "n" u.pass).run functions env = some (.going after) := by
    rw [run_loop hpassed.length_eq, ← length_mesh]
    exact hafter
  have hnum := h.weighted_eq
  have hden := h.total_eq
  rw [List.take_length] at hnum hden
  apply Function.result_eq hlen
  have hgap : Statement.gap.run functions after = some (.going after) := rfl
  rw [Returns, SourceUnit.crispFunction_body, runBody_append hsetup, runBody_cons hloop,
    runBody_cons hgap]
  have hquotient : Means functions after 2 [.name "num", .slash, .name "den"] _ :=
    ((Means.name hnum).of_le (by decide)).slash ((Means.name hden).of_le (by decide))
  exact Returns.result (hquotient.of_le (by decide))

end Run

end Loop

end FuzzyInference.CSource
