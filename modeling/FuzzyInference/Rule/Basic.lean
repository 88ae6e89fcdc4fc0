import FuzzyInference.Decimal.Fixed
import FuzzyInference.Proposition.Statement

/-!
# Rules

A rule concludes that its target has a quality to the degree to which a proposition holds. The set
that it puts out is the one that the concluded label stands for, implicated by that degree and
scaled by the weight of the rule.
-/

namespace FuzzyInference

/-- `if <antecedent> then <target> is <label>`, with a weight. -/
structure Rule (α : Type) where
  /-- The condition. -/
  antecedent : Proposition
  /-- The variable concluded upon. -/
  target : Handle
  /-- The label concluded. -/
  label : String
  /-- The weight, in `(0, 1]`. -/
  weight : α

/-- A rule that names its variables. -/
structure RuleStatement (α : Type) where
  /-- The condition. -/
  antecedent : Statement
  /-- The conclusion. -/
  consequent : Statement
  /-- The weight. -/
  weight : α

namespace RuleStatement

variable {α : Type}

/-- Two rules state the same. -/
def same [BEq α] (a b : RuleStatement α) : Bool :=
  a.antecedent == b.antecedent && a.consequent == b.consequent && a.weight == b.weight

instance [BEq α] : BEq (RuleStatement α) := ⟨same⟩

/-- The text of a rule, its weight with six decimals. -/
def text (s : RuleStatement Float) : String :=
  "if (" ++ s.antecedent.text ++ ") then (" ++ s.consequent.text ++ ") [" ++
    Decimal.fixedText 6 s.weight ++ "]"

end RuleStatement

namespace Rule

variable {α : Type} [Scalar α]

/-- A rule from a condition, a conclusion and a weight. The weight must be in `(0, 1]`, and the
conclusion a plain valuation. -/
def build (antecedent consequent : Proposition) (weight : α) : Checked α (Rule α) :=
  if 0 < weight ∧ weight ≤ 1 then
    match consequent with
    | .is target label => .ok ⟨antecedent, target, label, weight⟩
    | _ => .error (.rule .compoundConclusion)
  else .error (.rule (.weight weight))

/-- The conclusion as a proposition. -/
def consequent (rule : Rule α) : Proposition := .is rule.target rule.label

/-- The antecedent must be valid, and the concluded label must belong to its variable. -/
def validate (r : Registry α) (rule : Rule α) : Checked α Unit := do
  rule.antecedent.validate r
  Proposition.validateLabel r rule.target rule.label

/-- The set that a rule puts out. -/
def output (r : Registry α) (inputs : Assignment α) (ctx : Context) (rule : Rule α) :
    Except LookupFault (FuzzySet α) := do
  let degree ← rule.antecedent.degree r inputs ctx
  let set ← r.labelSet rule.target rule.label
  return .scale (.implication ctx.implication degree set) rule.weight

/-- The statement of a rule. -/
def describe (r : Registry α) (rule : Rule α) : Except LookupFault (RuleStatement α) := do
  let antecedent ← rule.antecedent.describe r
  let consequent ← rule.consequent.describe r
  return ⟨antecedent, consequent, rule.weight⟩

end Rule

/-- The rule that a statement makes about the variables of a registry. -/
def RuleStatement.resolve {α : Type} [Scalar α] (r : Registry α) (s : RuleStatement α) :
    Checked α (Rule α) := do
  let antecedent ← s.antecedent.resolve r
  let consequent ← s.consequent.resolve r
  let rule ← Rule.build antecedent consequent s.weight
  rule.validate r
  return rule

end FuzzyInference
