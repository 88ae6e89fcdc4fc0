import FuzzyInference.Assignment
import FuzzyInference.Registry

/-!
# Propositions

Conditions on the values of variables: valuations (`variable is label`), and their negations,
conjunctions and disjunctions. A proposition holds to a degree, which depends on the values that the
variables are given and on the context.
-/

namespace FuzzyInference

/-- A condition on variables, which are referred to by handle. -/
inductive Proposition where
  /-- The variable has the quality that the label names. -/
  | is (subject : Handle) (label : String)
  /-- The variable has not the quality that the label names. -/
  | isNot (subject : Handle) (label : String)
  /-- The negation of a proposition. -/
  | not (p : Proposition)
  /-- All propositions hold. -/
  | and (ps : List Proposition)
  /-- One of the propositions holds. -/
  | or (ps : List Proposition)
  deriving Repr, Inhabited

namespace Proposition

mutual

/-- Every valuation in the tree, from left to right. -/
def valuations : Proposition → List (Handle × String)
  | is h label => [(h, label)]
  | isNot h label => [(h, label)]
  | not p => valuations p
  | and ps => valuationsAll ps
  | or ps => valuationsAll ps

/-- Every valuation in a list of trees, from left to right. -/
def valuationsAll : List Proposition → List (Handle × String)
  | [] => []
  | p :: ps => valuations p ++ valuationsAll ps

end

variable {α : Type} [Scalar α]

/-- The degree to which the value of a variable has the quality that a label names. -/
def valuation (r : Registry α) (inputs : Assignment α) (ctx : Context) (h : Handle)
    (label : String) : Except LookupFault α := do
  let v ← r.get h
  let set ← v.get label
  let x ← inputs.get v.name
  return set.degree ctx x

mutual

/-- The degree to which a proposition holds. The first lookup that fails, from left to right, is
reported, whatever the other degrees are. -/
def degree (r : Registry α) (inputs : Assignment α) (ctx : Context) :
    Proposition → Except LookupFault α
  | is h label => valuation r inputs ctx h label
  | isNot h label => return 1 - (← valuation r inputs ctx h label)
  | not p => return 1 - (← degree r inputs ctx p)
  | and ps => return ctx.conjunction.combine (← degrees r inputs ctx ps)
  | or ps => return ctx.disjunction.combine (← degrees r inputs ctx ps)

/-- The degrees to which several propositions hold, in their order. -/
def degrees (r : Registry α) (inputs : Assignment α) (ctx : Context) :
    List Proposition → Except LookupFault (List α)
  | [] => return []
  | p :: ps => do
    let d ← degree r inputs ctx p
    let ds ← degrees r inputs ctx ps
    return d :: ds

end

/-- The label of a valuation must belong to its variable. -/
def validateLabel (r : Registry α) (h : Handle) (label : String) : Checked α Unit := do
  discard ((r.labelSet h label).mapError Fault.lookup)

mutual

/-- Every valuation must name a label of a registered variable, and no conjunction or disjunction
may be empty. -/
def validate (r : Registry α) : Proposition → Checked α Unit
  | is h label => validateLabel r h label
  | isNot h label => validateLabel r h label
  | not p => validate r p
  | and ps => if ps.isEmpty then .error (.rule .emptyCombination) else validateAll r ps
  | or ps => if ps.isEmpty then .error (.rule .emptyCombination) else validateAll r ps

/-- Every proposition of a list must be valid. -/
def validateAll (r : Registry α) : List Proposition → Checked α Unit
  | [] => .ok ()
  | p :: ps => do
    validate r p
    validateAll r ps

end

instance : Complement Proposition := ⟨not⟩

instance : AndOp Proposition := ⟨fun p q => and [p, q]⟩

instance : OrOp Proposition := ⟨fun p q => or [p, q]⟩

end Proposition

end FuzzyInference
