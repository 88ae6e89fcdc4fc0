import FuzzyInference.CSource.Degree
import FuzzyInference.CSource.Prelude
import FuzzyInference.Decimal.Layout
import FuzzyInference.FuzzySystem.Description

/-!
# Generated units

A system as a C source file of its own. One function gives the degree of the target in the
aggregated output, and one its centroid over a mesh, which is counted or stepped as in the target's
domain. Operators are those of the system's context. Only numeric variables and the centroid method
can be generated.
-/

namespace FuzzyInference.CSource

/-- Names that the generated functions use, or that the language or its mathematical functions
have. -/
def reservedNames : List String :=
  ["min_val", "max_val", "steps", "step", "n", "i", "x", "mu", "num", "den", "double", "int",
    "return", "if", "else", "for", "while", "static", "const", "fmin", "fmax", "exp", "pow",
    "fabs", "ceil"]

/-- An ASCII letter or an underscore. -/
def startsName (c : Char) : Bool := c.isAlpha || c = '_'

/-- A text is formed like an identifier. -/
def isIdentifier : List Char → Bool
  | [] => false
  | c :: cs => startsName c && cs.all fun d => startsName d || d.isDigit

/-- A name may be used for a function or a parameter: it is an identifier, is not reserved, and does
not begin like those of the prelude. -/
def isUsable (name : String) : Bool :=
  isIdentifier name.toList && !reservedNames.contains name && !"fz_".toList.isPrefixOf name.toList

variable {α : Type} [Scalar α]

/-- A name must be usable. -/
def requireUsable (name : String) : Checked α Unit :=
  if isUsable name then .ok () else .error (.source (.identifier name))

/-- The name of the function for the centroid. -/
def crispName (function : String) : String := function ++ "_crisp"

/-- A variable must have a usable name, which is not that of a generated function. -/
def requireParameter (function name : String) : Checked α Unit :=
  if name = function ∨ name = crispName function then .error (.source (.shadowing name))
  else requireUsable name

/-- How the generated loop runs over a mesh. -/
structure MeshLoop (α : Type) where
  /-- The number of points. -/
  count : Expression α
  /-- The distance between points. -/
  step : Expression α
  /-- The point at index `i`. -/
  point : Expression α

/-- The loop over a mesh from `min_val` to `max_val`. A counted mesh ends on `max_val` exactly, a
stepped one stops below it. -/
def MeshLoop.ofSteps (steps : Steps α) : MeshLoop α :=
  let span : Expression α :=
    Expression.grouped [.name "max_val", .minus, .name "min_val"]
  let spaced : Expression α := [.name "min_val", .plus, .name "step", .times, .name "i"]
  match steps with
  | .count _ =>
    { count := [.toInt, .name "steps"]
      step := Expression.choice [.name "n", .greater, .whole 1]
        (span ++ .slash :: Expression.grouped [.name "n", .minus, .whole 1]) (literal 0)
      point := Expression.choice
        [.name "n", .greater, .whole 1, .both, .name "i", .equal, .name "n", .minus, .whole 1]
        [.name "max_val"] spaced }
  | .size _ =>
    { count := .toInt :: Expression.call "ceil" [span ++ [.slash, .name "steps"]]
      step := [.name "steps"]
      point := spaced }

/-- What is generated for a system. -/
structure SourceUnit (α : Type) where
  /-- The name of the function for the degree of the target. -/
  function : String
  /-- The name of the target. -/
  target : String
  /-- The names of the inputs, in order. -/
  inputs : List String
  /-- The degree of the target. -/
  degree : Expression α
  /-- The loop over the target's mesh. -/
  mesh : MeshLoop α

/-- The input variables must be numeric and usable as parameters. -/
def requireInputs (function : String) : List (Variable α) → Checked α Unit
  | [] => .ok ()
  | v :: vs => do
    match v.domain with
    | .categorical _ => .error (.source (.categoricalInput v.name))
    | .numeric _ => requireParameter function v.name
    requireInputs function vs

/-- The unit for a system, with the given name for its first function. -/
def SourceUnit.ofSystem (s : FuzzySystem α) (function : String) :
    Checked α (SourceUnit α) := do
  requireUsable function
  if s.context.defuzzification ≠ .centroid then
    .error (.source (.method s.context.defuzzification))
  let target ← s.targetVariable.mapError Fault.lookup
  match target.domain with
  | .categorical _ => .error (.source (.categoricalTarget target.name))
  | .numeric domain =>
    requireParameter function target.name
    requireInputs function s.inputVariables
    let degree ← output s.registry s.context target.name s.rules.rules
    return {
      function := function
      target := target.name
      inputs := s.inputVariables.map (·.name)
      degree := degree
      mesh := .ofSteps domain.steps }

namespace SourceUnit

/-- The function for the degree of the target. -/
def degreeFunction (u : SourceUnit α) : Function α where
  internal := false
  name := u.function
  parameters := u.target :: u.inputs
  body := [.result u.degree]

/-- The function for the centroid over a mesh: the sum of the points, weighted by their degrees,
over the sum of the degrees. -/
def crispFunction (u : SourceUnit α) : Function α where
  internal := false
  name := crispName u.function
  parameters := "min_val" :: "max_val" :: "steps" :: u.inputs
  body :=
    [.whole "n" u.mesh.count,
      .floating [("step", u.mesh.step)],
      .floating [("num", literal 0), ("den", literal 0)],
      .index "i",
      .gap,
      .loop "i" "n"
        [.floating [("x", u.mesh.point)],
          .floating [("mu", .call u.function (("x" :: u.inputs).map fun s => [.name s]))],
          .increase "num" [.name "x", .times, .name "mu"],
          .increase "den" [.name "mu"]],
      .gap,
      .result [.name "num", .slash, .name "den"]]

/-- The functions of a unit, each behind those that it calls. -/
def functions (u : SourceUnit α) : List (Function α) :=
  prelude ++ [u.degreeFunction, u.crispFunction]

/-- The text of a unit. -/
def text (write : α → String) (u : SourceUnit α) : String :=
  let lines := "#include <math.h>" :: u.functions.flatMap fun f => "" :: f.lines write
  String.join (lines.map (· ++ "\n"))

end SourceUnit

/-- The C text of a system. -/
def ofSystem (s : FuzzySystem Float) (function : String) : Checked Float String := do
  return (← SourceUnit.ofSystem s function).text Layout.literal.render

end FuzzyInference.CSource
