import FuzzyInference.FisText.Value
import FuzzyInference.RuleBase.Basic

/-!
# Rule lines

A rule is a line `indices, output (weight) : connective`, with one index for each input. An index
counts the labels of its variable from one; a negative index negates the valuation, and zero leaves
the input out. The connective is `1` for a conjunction and `2` for a disjunction.
-/

namespace FuzzyInference.FisText

/-- The parts of a rule's text `indices, output (weight)`. -/
structure RuleParts where
  /-- The text of the indices. -/
  indices : List Char
  /-- The text of the output index. -/
  output : List Char
  /-- The text of the weight. -/
  weight : List Char
  deriving Repr, DecidableEq

/-- A rule's text cut at its first comma and at the first parenthesis behind that; a closing
parenthesis must end it. -/
def ruleParts? (line : List Char) : Option RuleParts := do
  let (indices, _, rest) ← Text.splitFirst (· = ',') (Text.trimStart line)
  let (output, _, rest) ← Text.splitFirst (· = '(') (Text.trimStart rest)
  match (Text.trimEnd rest).reverse with
  | ')' :: weight => some ⟨indices, Text.trimEnd output, weight.reverse⟩
  | _ => none

variable {α : Type} [Scalar α]

/-- The valuation of a variable that an index other than zero stands for. -/
def valuationAt (r : Registry α) (h : Handle) (index : Int) : Checked α Proposition := do
  let v ← (r.get h).mapError Fault.lookup
  let label ← (v.labelAt (index.natAbs - 1)).mapError Fault.lookup
  return if 0 < index then .is h label else .isNot h label

/-- The combination of propositions that a connective stands for. -/
def connect (connective : List Char) (ps : List Proposition) : Checked α Proposition :=
  match Text.trim connective with
  | ['1'] => .ok (.and ps)
  | ['2'] => .ok (.or ps)
  | other => .error (.fisText (.unknownConnective (String.ofList other)))

/-- The rule that an entry stands for. -/
def readRule (r : Registry α) (inputs : List Handle) (target : Handle) (e : Entry) :
    Checked α (Rule α) := do
  let line := String.ofList e.key
  match ruleParts? e.key with
  | none => .error (.fisText (.malformedRule line))
  | some parts =>
    let indices ← (Text.words parts.indices).mapM readIndex
    let output ← readIndex parts.output
    let weight ← readScalar parts.weight
    if indices.length ≠ inputs.length then
      .error (.fisText (.indexCount line indices.length inputs.length))
    let pairs := (inputs.zip indices).filter fun (_, index) => index ≠ 0
    let ps ← pairs.mapM fun (h, index) => valuationAt r h index
    if ps.isEmpty then .error (.fisText (.noInputs line))
    let antecedent ← connect e.value ps
    if output ≤ 0 then .error (.fisText (.outputIndex line))
    Rule.build antecedent (← valuationAt r target output) weight

end FuzzyInference.FisText
