import FuzzyInference.FuzzySet.Shape
import FuzzyInference.Proofs.CSource.Meaning
import FuzzyInference.Proofs.Scalar.Exact

/-!
# The meaning of the prelude

Every function of the prelude returns the height of the curve that it is named after.
-/

namespace FuzzyInference.CSource

open Expression

section Bodies

variable {α : Type} [Scalar α] {functions : Functions α} {env : Environment α}

/-- A body returns a number. -/
def Returns (functions : Functions α) (env : Environment α) (body : List (Statement α)) (x : α) :
    Prop :=
  runBody functions env body = some (.returned x)

/-- A statement that returns ends the body. -/
theorem Returns.result {e : Expression α} {rest : List (Statement α)} {x : α}
    (h : Means functions env 8 e x) : Returns functions env (.result e :: rest) x := by
  simp only [Returns, runBody, Statement.run, h.valueOf_eq (Nat.le_refl 8)]
  rfl

/-- A statement that returns on a condition ends the body, or the rest of it is run. -/
theorem Returns.resultIf {c e : Expression α} {rest : List (Statement α)} {b : Bool} {x y : α}
    (hc : Holds functions env 7 c b) (h : Means functions env 8 e x)
    (hr : Returns functions env rest y) :
    Returns functions env (.resultIf c e :: rest) (if b then x else y) := by
  obtain ⟨t, ht, hv⟩ := hc
  have hcv : valueOf functions env c = some (.ofBool b) := by
    rw [valueOf, reading_eq (by decide) ht]
    exact hv
  cases b with
  | false => simpa [Returns, runBody, Statement.run, hcv] using hr
  | true =>
    simp only [Returns, runBody, Statement.run, hcv, h.valueOf_eq (Nat.le_refl 8)]
    rfl

/-- A function returns what its body does when parameters stand for arguments. -/
theorem Function.result_eq {f : Function α} {arguments : List α} {x : α}
    (hl : arguments.length = f.parameters.length)
    (h : Returns functions (bindParameters f.parameters arguments) f.body x) :
    f.result functions arguments = some x := by
  rw [Function.result, if_pos hl, show runBody _ _ _ = _ from h]

/-- What is defined behind a function does not change it. -/
theorem definedBy_append {name : String} (earlier : List (Function α)) {later : List (Function α)}
    (hn : name ∉ later.map (·.name)) :
    definedBy (earlier ++ later) name = definedBy earlier name := by
  induction later using List.reverseRecOn with
  | nil => rw [List.append_nil]
  | append_singleton later f ih =>
    rw [List.map_append, List.mem_append, not_or] at hn
    have hne : name ≠ f.name := by simpa using hn.2
    rw [← List.append_assoc, ← ih hn.1]
    funext arguments
    rw [definedBy, List.foldl_concat, Functions.extend, if_neg hne]
    rfl

/-- A mathematical function is what it is unless a unit defines it anew. -/
theorem definedBy_eq_library {name : String} {functions : List (Function α)}
    (hn : name ∉ functions.map (·.name)) (arguments : List α) :
    definedBy functions name arguments = library name arguments :=
  congrFun (definedBy_append [] hn) arguments

/-- A function of a unit calls those before it. -/
theorem definedBy_self (earlier : List (Function α)) (f : Function α) {later : List (Function α)}
    (hn : f.name ∉ later.map (·.name)) (arguments : List α) :
    definedBy (earlier ++ f :: later) f.name arguments =
      f.result (definedBy earlier) arguments := by
  rw [List.append_cons, definedBy_append _ hn, definedBy, List.foldl_concat,
    Functions.extend, if_pos rfl]
  rfl

end Bodies

/-! ### The functions -/

section Functions

variable {functions : Functions Exact} {env : Environment Exact}

private theorem difference {l r : String} {x y : Exact} (h : Means functions env 0 [.name l] x)
    (k : Means functions env 0 [.name r] y) :
    Means functions env 3 [.name l, .minus, .name r] (x - y) :=
  (h.of_le (by decide)).minus (k.of_le (by decide))

/-- The function for segments returns the height of the line through two points. -/
theorem lerpFunction_result (x x₁ y₁ x₂ y₂ : Exact) :
    lerpFunction.result functions [x, x₁, y₁, x₂, y₂] =
      some (Interpolation.lerp x x₁ y₁ x₂ y₂) := by
  refine Function.result_eq rfl (.result ?_)
  generalize henv : bindParameters _ [x, x₁, y₁, x₂, y₂] = env
  have hx : Means functions env 0 [.name "x"] x := .name (by rw [← henv]; rfl)
  have hx₁ : Means functions env 0 [.name "x1"] x₁ := .name (by rw [← henv]; rfl)
  have hy₁ : Means functions env 0 [.name "y1"] y₁ := .name (by rw [← henv]; rfl)
  have hx₂ : Means functions env 0 [.name "x2"] x₂ := .name (by rw [← henv]; rfl)
  have hy₂ : Means functions env 0 [.name "y2"] y₂ := .name (by rw [← henv]; rfl)
  have hrun := (difference hx hx₁).group (by decide)
  have hrise := (difference hy₂ hy₁).group (by decide)
  have hspan := (difference hx₂ hx₁).group (by decide)
  have hslope := ((hrun.of_le (n := 2) (by decide)).times (hrise.of_le (by decide))).slash
    (hspan.of_le (by decide))
  have hline := (hy₁.of_le (n := 3) (by decide)).plus hslope
  exact .choice (.equal hx₂ hx₁) (hy₂.of_le (by decide)) (hline.of_le (by decide))

private theorem edge_means {low high : String} {a b u v : Exact} {top bottom : Expression Exact}
    (ha : Means functions env 0 [.name low] a) (hb : Means functions env 0 [.name high] b)
    (ht : Means functions env 8 top u) (hd : Means functions env 8 bottom v) :
    Means functions env 8 (edge (.name low) (.name high) top bottom)
      (if b == a then 1 else u / v) := by
  have hq := ((ht.group (by decide)).of_le (n := 2) (by decide)).slash
    ((hd.group (by decide)).of_le (by decide))
  exact .choice (.equal hb ha) ((Means.number 1).of_le (by decide)) (hq.of_le (by decide))

private theorem outside_holds {x a c : String} {u v w : Exact}
    (hx : Means functions env 0 [.name x] u) (ha : Means functions env 0 [.name a] v)
    (hc : Means functions env 0 [.name c] w) :
    Holds functions env 7 [.name x, .less, .name a, .either, .name x, .greater, .name c]
      (decide (u < v) || decide (w < u)) :=
  ((Holds.less hx (ha.of_le (by decide))).of_le (by decide)).either
    ((Holds.greater hx (hc.of_le (by decide))).of_le (by decide))

/-- The function for triangles returns their height. -/
theorem triangularFunction_result (x a b c : Exact) :
    triangularFunction.result functions [x, a, b, c] = some (Shape.triangle x a b c) := by
  refine Function.result_eq rfl ?_
  generalize henv : bindParameters _ [x, a, b, c] = env
  have hx : Means functions env 0 [.name "x"] x := .name (by rw [← henv]; rfl)
  have ha : Means functions env 0 [.name "a"] a := .name (by rw [← henv]; rfl)
  have hb : Means functions env 0 [.name "b"] b := .name (by rw [← henv]; rfl)
  have hc : Means functions env 0 [.name "c"] c := .name (by rw [← henv]; rfl)
  have hrise := edge_means ha hb ((difference hx ha).of_le (n := 8) (by decide))
    ((difference hb ha).of_le (by decide))
  have hfall := edge_means hb hc ((difference hc hx).of_le (n := 8) (by decide))
    ((difference hc hb).of_le (by decide))
  have hbody : Returns functions env triangularFunction.body _ :=
    .resultIf (outside_holds hx ha hc) ((Means.number 0).of_le (by decide))
      (.resultIf ((Holds.less hx (hb.of_le (by decide))).of_le (by decide)) hrise (.result hfall))
  simpa [Shape.triangle] using hbody

/-- The function for trapezoids returns their height. -/
theorem trapezoidalFunction_result (x a b c d : Exact) :
    trapezoidalFunction.result functions [x, a, b, c, d] = some (Shape.trapezoid x a b c d) := by
  refine Function.result_eq rfl ?_
  generalize henv : bindParameters _ [x, a, b, c, d] = env
  have hx : Means functions env 0 [.name "x"] x := .name (by rw [← henv]; rfl)
  have ha : Means functions env 0 [.name "a"] a := .name (by rw [← henv]; rfl)
  have hb : Means functions env 0 [.name "b"] b := .name (by rw [← henv]; rfl)
  have hc : Means functions env 0 [.name "c"] c := .name (by rw [← henv]; rfl)
  have hd : Means functions env 0 [.name "d"] d := .name (by rw [← henv]; rfl)
  have hrise := edge_means ha hb ((difference hx ha).of_le (n := 8) (by decide))
    ((difference hb ha).of_le (by decide))
  have hrest := (difference hd hx).group (by decide)
  have hspan := (difference hd hc).group (by decide)
  have hfall := (hrest.of_le (n := 2) (by decide)).slash (hspan.of_le (by decide))
  have hone : Means functions env 8 [.number 1] (1 : Exact) :=
    (Means.number 1).of_le (by decide)
  have hbody : Returns functions env trapezoidalFunction.body _ :=
    .resultIf (outside_holds hx ha hd) ((Means.number 0).of_le (by decide))
      (.resultIf ((Holds.less hx (hb.of_le (by decide))).of_le (by decide)) hrise
        (.resultIf ((Holds.lessEqual hx (hc.of_le (by decide))).of_le (by decide)) hone
          (.result (hfall.of_le (by decide)))))
  simpa [Shape.trapezoid] using hbody

private theorem ratio {l r w : String} {x y z : Exact} (h : Means functions env 0 [.name l] x)
    (k : Means functions env 0 [.name r] y) (hw : Means functions env 0 [.name w] z) :
    Means functions env 2 (grouped [.name l, .minus, .name r] ++ [.slash, .name w])
      ((x - y) / z) :=
  (((difference h k).group (by decide)).of_le (by decide)).slash (hw.of_le (by decide))

private theorem square_means {e : Expression Exact} {x : Exact} (henv : env "pow" = none)
    (hpow : functions "pow" [x, 2] = some (Scalar.pow x 2)) (h : Means functions env 8 e x) :
    Means functions env 0 (call "pow" [e, [.whole 2]]) (Scalar.square x) := by
  have htwo : Passes functions env [.whole 2] (2 : Exact) :=
    ⟨_, _, (Reads.whole 2).of_le (by decide), rfl, rfl⟩
  refine .call henv (by simp) (.cons (h.passes (Nat.le_refl 8)) (.cons htwo .nil)) ?_
  rw [hpow]
  exact congrArg some Exact.pow_two

/-- The function for bells returns their height. -/
theorem gaussianFunction_result (hexp : ∀ x, functions "exp" [x] = some (Scalar.exp x))
    (hpow : ∀ x y, functions "pow" [x, y] = some (Scalar.pow x y)) (x a c : Exact) :
    gaussianFunction.result functions [x, a, c] = some (Shape.gauss x a c) := by
  refine Function.result_eq rfl (.result ?_)
  generalize henv : bindParameters _ [x, a, c] = env
  have hx : Means functions env 0 [.name "x"] x := .name (by rw [← henv]; rfl)
  have ha : Means functions env 0 [.name "a"] a := .name (by rw [← henv]; rfl)
  have hc : Means functions env 0 [.name "c"] c := .name (by rw [← henv]; rfl)
  have hsquare := square_means (by rw [← henv]; rfl) (hpow _ 2)
    ((ratio hx hc ha).of_le (n := 8) (by decide))
  have hopposite := (hsquare.of_le (n := 1) (by decide)).negation
  have hhalf := (hopposite.of_le (n := 2) (by decide)).slash
    ((Means.number 2).of_le (by decide))
  exact (Means.call (by rw [← henv]; rfl) (by simp)
    (.cons (hhalf.passes (by decide)) .nil) (hexp _)).of_le (by decide)

/-- The function for half bells returns their height. -/
theorem twoSidedGaussianFunction_result
    (hgauss : ∀ x a c, functions "fz_gaussian" [x, a, c] = some (Shape.gauss x a c))
    (x a₁ c₁ a₂ c₂ : Exact) :
    twoSidedGaussianFunction.result functions [x, a₁, c₁, a₂, c₂] =
      some (Shape.gaussHalves x a₁ c₁ a₂ c₂) := by
  refine Function.result_eq rfl ?_
  generalize henv : bindParameters _ [x, a₁, c₁, a₂, c₂] = env
  have hx : Means functions env 0 [.name "x"] x := .name (by rw [← henv]; rfl)
  have ha₁ : Means functions env 0 [.name "a1"] a₁ := .name (by rw [← henv]; rfl)
  have hc₁ : Means functions env 0 [.name "c1"] c₁ := .name (by rw [← henv]; rfl)
  have ha₂ : Means functions env 0 [.name "a2"] a₂ := .name (by rw [← henv]; rfl)
  have hc₂ : Means functions env 0 [.name "c2"] c₂ := .name (by rw [← henv]; rfl)
  have hleft : Means functions env 0 (call "fz_gaussian" [[.name "x"], [.name "a1"], [.name "c1"]])
      (Shape.gauss x a₁ c₁) :=
    .call (by rw [← henv]; rfl) (by simp) (.cons (hx.passes (by decide))
      (.cons (ha₁.passes (by decide)) (.cons (hc₁.passes (by decide)) .nil))) (hgauss _ _ _)
  have hright : Means functions env 0 (call "fz_gaussian" [[.name "x"], [.name "a2"], [.name "c2"]])
      (Shape.gauss x a₂ c₂) :=
    .call (by rw [← henv]; rfl) (by simp) (.cons (hx.passes (by decide))
      (.cons (ha₂.passes (by decide)) (.cons (hc₂.passes (by decide)) .nil))) (hgauss _ _ _)
  have hbody : Returns functions env twoSidedGaussianFunction.body _ :=
    .resultIf ((Holds.less hx (hc₁.of_le (by decide))).of_le (by decide))
      (hleft.of_le (by decide))
      (.resultIf ((Holds.greater hx (hc₂.of_le (by decide))).of_le (by decide))
        (hright.of_le (by decide)) (.result ((Means.number 1).of_le (by decide))))
  simpa [Shape.gaussHalves] using hbody

/-- The function for generalized bells returns their height. -/
theorem bellFunction_result (habs : ∀ x, functions "fabs" [x] = some (Scalar.abs x))
    (hpow : ∀ x y, functions "pow" [x, y] = some (Scalar.pow x y)) (x a b c : Exact) :
    bellFunction.result functions [x, a, b, c] = some (Shape.generalizedBell x a b c) := by
  refine Function.result_eq rfl (.result ?_)
  generalize henv : bindParameters _ [x, a, b, c] = env
  have hx : Means functions env 0 [.name "x"] x := .name (by rw [← henv]; rfl)
  have ha : Means functions env 0 [.name "a"] a := .name (by rw [← henv]; rfl)
  have hb : Means functions env 0 [.name "b"] b := .name (by rw [← henv]; rfl)
  have hc : Means functions env 0 [.name "c"] c := .name (by rw [← henv]; rfl)
  have hone : Means functions env 0 [.number 1] (1 : Exact) := .number 1
  have htwo : Means functions env 0 [.number 2] (2 : Exact) := .number 2
  have hbase := Means.call (by rw [← henv]; rfl) (by simp)
    (.cons ((ratio hx hc ha).passes (by decide)) .nil) (habs _)
  have hexponent := (htwo.of_le (n := 2) (by decide)).times (hb.of_le (by decide))
  have hpower := Means.call (by rw [← henv]; rfl) (by simp) (.cons (hbase.passes (by decide))
    (.cons (hexponent.passes (by decide)) .nil)) (hpow _ _)
  have hsum := (hone.of_le (n := 3) (by decide)).plus (hpower.of_le (by decide))
  exact ((hone.of_le (n := 2) (by decide)).slash
    ((hsum.group (by decide)).of_le (by decide))).of_le (by decide)

/-- The function for sigmoids returns their height. -/
theorem sigmoidFunction_result (hexp : ∀ x, functions "exp" [x] = some (Scalar.exp x))
    (x a c : Exact) :
    sigmoidFunction.result functions [x, a, c] = some (Shape.logistic x a c) := by
  refine Function.result_eq rfl (.result ?_)
  generalize henv : bindParameters _ [x, a, c] = env
  have hx : Means functions env 0 [.name "x"] x := .name (by rw [← henv]; rfl)
  have ha : Means functions env 0 [.name "a"] a := .name (by rw [← henv]; rfl)
  have hc : Means functions env 0 [.name "c"] c := .name (by rw [← henv]; rfl)
  have hone : Means functions env 0 [.number 1] (1 : Exact) := .number 1
  have hopposite := (ha.of_le (n := 1) (by decide)).negation
  have hexponent := (hopposite.of_le (n := 2) (by decide)).times
    (((difference hx hc).group (by decide)).of_le (by decide))
  have hpower := Means.call (by rw [← henv]; rfl) (by simp)
    (.cons (hexponent.passes (by decide)) .nil) (hexp _)
  have hsum := (hone.of_le (n := 3) (by decide)).plus (hpower.of_le (by decide))
  exact ((hone.of_le (n := 2) (by decide)).slash
    ((hsum.group (by decide)).of_le (by decide))).of_le (by decide)

/-- The function for splines returns their height. -/
theorem sShapedFunction_result (hpow : ∀ x y, functions "pow" [x, y] = some (Scalar.pow x y))
    (x a b : Exact) : sShapedFunction.result functions [x, a, b] = some (Shape.spline x a b) := by
  refine Function.result_eq rfl ?_
  generalize henv : bindParameters _ [x, a, b] = env
  have hx : Means functions env 0 [.name "x"] x := .name (by rw [← henv]; rfl)
  have ha : Means functions env 0 [.name "a"] a := .name (by rw [← henv]; rfl)
  have hb : Means functions env 0 [.name "b"] b := .name (by rw [← henv]; rfl)
  have hone : Means functions env 0 [.number 1] (1 : Exact) := .number 1
  have htwo : Means functions env 0 [.number 2] (2 : Exact) := .number 2
  have hspan := (difference hb ha).group (by decide)
  have hhalf {k : String} {y : Exact} (hk : Means functions env 0 [.name k] y) :=
    (htwo.of_le (n := 2) (by decide)).times ((square_means (by rw [← henv]; rfl) (hpow _ 2)
      (((((difference hx hk).group (by decide)).of_le (n := 2) (by decide)).slash
        (hspan.of_le (by decide))).of_le (n := 8) (by decide))).of_le (n := 1) (by decide))
  have hsum := (((ha.of_le (n := 3) (by decide)).plus (hb.of_le (by decide))).group (by decide))
  have hmid := (hsum.of_le (n := 2) (by decide)).slash (htwo.of_le (by decide))
  have hfall := (hone.of_le (n := 3) (by decide)).minus (hhalf hb)
  have hbody : Returns functions env sShapedFunction.body _ :=
    .resultIf ((Holds.less hx (ha.of_le (by decide))).of_le (by decide))
      ((Means.number 0).of_le (by decide))
      (.resultIf ((Holds.greaterEqual hx (hb.of_le (by decide))).of_le (by decide))
        (hone.of_le (by decide))
        (.resultIf ((Holds.lessEqual hx hmid).of_le (by decide)) ((hhalf ha).of_le (by decide))
          (.result (hfall.of_le (by decide)))))
  simpa [Shape.spline] using hbody

end Functions

/-- Functions that are what the prelude and the mathematical functions say. -/
structure KnowsPrelude (functions : Functions Exact) : Prop where
  /-- The smaller of two numbers. -/
  fmin : ∀ x y, functions "fmin" [x, y] = some (Scalar.min x y)
  /-- The larger of two numbers. -/
  fmax : ∀ x y, functions "fmax" [x, y] = some (Scalar.max x y)
  /-- Segments. -/
  lerp : ∀ x x₁ y₁ x₂ y₂,
    functions "fz_lerp" [x, x₁, y₁, x₂, y₂] = some (Interpolation.lerp x x₁ y₁ x₂ y₂)
  /-- Triangles. -/
  triangular : ∀ x a b c, functions "fz_triangular" [x, a, b, c] = some (Shape.triangle x a b c)
  /-- Trapezoids. -/
  trapezoidal : ∀ x a b c d,
    functions "fz_trapezoidal" [x, a, b, c, d] = some (Shape.trapezoid x a b c d)
  /-- Bells. -/
  gaussian : ∀ x a c, functions "fz_gaussian" [x, a, c] = some (Shape.gauss x a c)
  /-- Half bells. -/
  twoSidedGaussian : ∀ x a₁ c₁ a₂ c₂,
    functions "fz_gaussian2" [x, a₁, c₁, a₂, c₂] = some (Shape.gaussHalves x a₁ c₁ a₂ c₂)
  /-- Generalized bells. -/
  bell : ∀ x a b c, functions "fz_bell" [x, a, b, c] = some (Shape.generalizedBell x a b c)
  /-- Sigmoids. -/
  sigmoid : ∀ x a c, functions "fz_sigmoid" [x, a, c] = some (Shape.logistic x a c)
  /-- Splines. -/
  sShaped : ∀ x a b, functions "fz_s_shaped" [x, a, b] = some (Shape.spline x a b)

private theorem gaussian (later : List (Function Exact))
    (hn : "fz_gaussian" ∉ later.map (·.name)) (x a c : Exact) :
    definedBy ([lerpFunction, triangularFunction, trapezoidalFunction] ++
      gaussianFunction :: later) "fz_gaussian" [x, a, c] = some (Shape.gauss x a c) :=
  (definedBy_self _ gaussianFunction hn _).trans
    (gaussianFunction_result (fun _ ↦ definedBy_eq_library (by decide) _)
      (fun _ _ ↦ definedBy_eq_library (by decide) _) x a c)

/-- The prelude defines what its functions are named after. -/
theorem knowsPrelude : KnowsPrelude (definedBy prelude) where
  fmin _ _ := definedBy_eq_library (by decide) _
  fmax _ _ := definedBy_eq_library (by decide) _
  lerp x x₁ y₁ x₂ y₂ :=
    (definedBy_self [] lerpFunction (by decide) _).trans (lerpFunction_result x x₁ y₁ x₂ y₂)
  triangular x a b c :=
    (definedBy_self [_] triangularFunction (by decide) _).trans
      (triangularFunction_result x a b c)
  trapezoidal x a b c d :=
    (definedBy_self [_, _] trapezoidalFunction (by decide) _).trans
      (trapezoidalFunction_result x a b c d)
  gaussian := gaussian _ (by decide)
  twoSidedGaussian x a₁ c₁ a₂ c₂ :=
    (definedBy_self [_, _, _, _] twoSidedGaussianFunction (by decide) _).trans
      (twoSidedGaussianFunction_result (gaussian [] (by decide)) x a₁ c₁ a₂ c₂)
  bell x a b c :=
    (definedBy_self [_, _, _, _, _] bellFunction (by decide) _).trans
      (bellFunction_result (fun _ ↦ definedBy_eq_library (by decide) _)
        (fun _ _ ↦ definedBy_eq_library (by decide) _) x a b c)
  sigmoid x a c :=
    (definedBy_self [_, _, _, _, _, _] sigmoidFunction (by decide) _).trans
      (sigmoidFunction_result (fun _ ↦ definedBy_eq_library (by decide) _) x a c)
  sShaped x a b :=
    (definedBy_self [_, _, _, _, _, _, _] sShapedFunction (by decide) _).trans
      (sShapedFunction_result (fun _ _ ↦ definedBy_eq_library (by decide) _) x a b)

end FuzzyInference.CSource
