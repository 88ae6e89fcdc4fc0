import FuzzyInference.CSource.Token
import FuzzyInference.FuzzySystem.Basic

/-!
# Degrees as C expressions

The degree of a number in a set, of a proposition and of a rule's output, as expressions in the
variables' names. An expression for a set is in parentheses as a whole; an expression for a
proposition may not be.
-/

namespace FuzzyInference.CSource

open Expression

variable {α : Type} [Scalar α]

/-- The literal of a scalar as an expression. -/
def literal (x : α) : Expression α := [.number x]

/-- Expressions combined by a disjunction. -/
def disjunction (op : Disjunction) (operands : List (Expression α)) : Expression α :=
  match op with
  | .maximum => nested "fmax" operands
  | .probabilisticSum =>
    literal 1 ++ .minus ::
      joined .times (operands.map fun e => grouped (literal 1 ++ .minus :: e))
  | .boundedSum => call "fmin" [literal 1, joined .plus operands]

/-- Expressions combined by a conjunction. -/
def conjunction (op : Conjunction) (operands : List (Expression α)) : Expression α :=
  match op with
  | .minimum => nested "fmin" operands
  | .product => joined .times (operands.map grouped)
  | .lukasiewicz =>
    call "fmax"
      [literal 0, joined .plus operands ++ .minus :: literal (Scalar.ofNat (operands.length - 1))]

/-- A function of the prelude applied to a variable and parameters. -/
def shapeCall (function x : String) (parameters : List α) : Expression α :=
  call function ([.name x] :: parameters.map literal)

/-- The segments of a polygon from its first point on, as a chain of choices that ends in the last
height. -/
def segments (x : String) : List (α × α) → Expression α
  | [] => []
  | [(_, y)] => literal y
  | (x₁, y₁) :: (x₂, y₂) :: rest =>
    choice (.name x :: .lessEqual :: literal x₂) (shapeCall "fz_lerp" x [x₁, y₁, x₂, y₂])
      (segments x ((x₂, y₂) :: rest))

/-- The height of a shape at a variable. -/
def shape (x : String) : Shape α → Checked α (Expression α)
  | .triangular a b c => return shapeCall "fz_triangular" x [a, b, c]
  | .trapezoidal a b c d => return shapeCall "fz_trapezoidal" x [a, b, c, d]
  | .gaussian width center => return shapeCall "fz_gaussian" x [width, center]
  | .twoSidedGaussian width₁ center₁ width₂ center₂ =>
    return shapeCall "fz_gaussian2" x [width₁, center₁, width₂, center₂]
  | .bell a b c => return shapeCall "fz_bell" x [a, b, c]
  | .sigmoid slope center => return shapeCall "fz_sigmoid" x [slope, center]
  | .sigmoidProduct slope₁ center₁ slope₂ center₂ =>
    return shapeCall "fz_sigmoid" x [slope₁, center₁] ++ .times ::
      shapeCall "fz_sigmoid" x [slope₂, center₂]
  | .sigmoidDifference slope₁ center₁ slope₂ center₂ =>
    let difference := shapeCall "fz_sigmoid" x [slope₁, center₁] ++ .minus ::
      shapeCall "fz_sigmoid" x [slope₂, center₂]
    return call "fmin" [literal 1, call "fmax" [literal 0, difference]]
  | .sShaped a b => return shapeCall "fz_s_shaped" x [a, b]
  | .zShaped a b => return literal 1 ++ .minus :: shapeCall "fz_s_shaped" x [a, b]
  | .piShaped a b c d =>
    return shapeCall "fz_s_shaped" x [a, b] ++ .times ::
      grouped (literal 1 ++ .minus :: shapeCall "fz_s_shaped" x [c, d])
  | .piecewise [] => .error (.source .noPoints)
  | .piecewise ((x₁, y₁) :: rest) =>
    return grouped
      (choice (.name x :: .less :: literal x₁) (literal y₁) (segments x ((x₁, y₁) :: rest)))

/-- The degree that a table gives to a variable, as nested choices of which the first key is the
outermost. Every key must be a numeral; the last one that is not is reported. -/
def listed (x : String) : List (String × α) → Checked α (Expression α)
  | [] => return literal 0
  | (key, degree) :: rest => do
    let others ← listed x rest
    match Scalar.ofText? (Text.trim key.toList) with
    | some k =>
      return grouped (choice (.name x :: .equal :: literal k) (literal degree) others)
    | none => .error (.source (.discreteKey key))

mutual

/-- The degree of a variable in a set, in parentheses. Unions and intersections that name no
operator take those of the context. -/
def set (ctx : Context) (x : String) (s : FuzzySet α) : Checked α (Expression α) :=
  return grouped (← setBody ctx x s)

/-- The degree of a variable in a set, without parentheses around it. -/
def setBody (ctx : Context) (x : String) : FuzzySet α → Checked α (Expression α)
  | .singleton (.number x₀) =>
    return grouped (choice (.name x :: .equal :: literal x₀) (literal 1) (literal 0))
  | .singleton (.label _) => .error (.source .labelledSingleton)
  | .discrete table => listed x table.entries
  | .constant value => return literal value
  | .shape curve => shape x curve
  | .not s => return literal 1 ++ .minus :: grouped (← set ctx x s)
  | .scale s factor => return literal factor ++ .times :: grouped (← set ctx x s)
  | .implication op truth s => do
    let inner ← set ctx x s
    match op with
    | .minimum => return call "fmin" [literal truth, inner]
    | .product => return literal truth ++ .times :: grouped inner
  | .or op? ss => return disjunction (op?.getD ctx.disjunction) (← sets ctx x ss)
  | .and op? ss => return conjunction (op?.getD ctx.conjunction) (← sets ctx x ss)

/-- The degrees of a variable in several sets, in their order. -/
def sets (ctx : Context) (x : String) : List (FuzzySet α) → Checked α (List (Expression α))
  | [] => return []
  | s :: ss => do
    let e ← set ctx x s
    let es ← sets ctx x ss
    return e :: es

end

/-- The degree of a variable in the set that one of its labels stands for. -/
def valuation (r : Registry α) (ctx : Context) (h : Handle) (label : String) :
    Checked α (Expression α) := do
  let v ← (r.get h).mapError Fault.lookup
  set ctx v.name (← (v.get label).mapError Fault.lookup)

mutual

/-- The degree to which a proposition holds. -/
def proposition (r : Registry α) (ctx : Context) : Proposition → Checked α (Expression α)
  | .is h label => valuation r ctx h label
  | .isNot h label => return literal 1 ++ .minus :: grouped (← valuation r ctx h label)
  | .not p => return literal 1 ++ .minus :: grouped (← proposition r ctx p)
  | .and ps => return conjunction ctx.conjunction (← propositions r ctx ps)
  | .or ps => return disjunction ctx.disjunction (← propositions r ctx ps)

/-- The degrees to which several propositions hold, in their order. -/
def propositions (r : Registry α) (ctx : Context) :
    List Proposition → Checked α (List (Expression α))
  | [] => return []
  | p :: ps => do
    let e ← proposition r ctx p
    let es ← propositions r ctx ps
    return e :: es

end

/-- The degree of the target in the output of a rule. A weight of one is not written. -/
def rule (r : Registry α) (ctx : Context) (target : String) (rule : Rule α) :
    Checked α (Expression α) := do
  let degree ← proposition r ctx rule.antecedent
  let conclusion ← set ctx target (← (r.labelSet rule.target rule.label).mapError Fault.lookup)
  let implied := match ctx.implication with
    | .minimum => call "fmin" [degree, conclusion]
    | .product => grouped degree ++ .times :: grouped conclusion
  return if rule.weight == 1 then implied
    else literal rule.weight ++ .times :: grouped implied

/-- The degree of the target in the aggregated output of rules; zero without rules. -/
def output (r : Registry α) (ctx : Context) (target : String) (rules : List (Rule α)) :
    Checked α (Expression α) := do
  let outputs ← rules.mapM (rule r ctx target)
  return if outputs.isEmpty then literal 0 else disjunction ctx.aggregation outputs

end FuzzyInference.CSource
