import FuzzyInference.RuleBase.Basic

/-!
# Inference systems

A system has variables, of which some are inputs and one is the target, rules that conclude on the
target from the inputs, and a context. Given values for the inputs, its output is a fuzzy set on the
target's domain, and its crisp output the point that the set is reduced to.
-/

namespace FuzzyInference

/-- An inference system with a single target. -/
structure FuzzySystem (α : Type) [Scalar α] where
  /-- The variables. -/
  registry : Registry α
  /-- The inputs, in the order in which rows give their values. -/
  inputs : List Handle
  /-- The rules. -/
  rules : RuleBase α
  /-- The target. -/
  target : Handle
  /-- The operators in force. -/
  context : Context

/-- Values for the inputs of a system. -/
inductive Row (α : Type) where
  /-- Values in the order of the inputs. -/
  | positional (values : List (Point α))
  /-- Values by name. -/
  | named (values : Assignment α)

namespace FuzzySystem

variable {α : Type} [Scalar α]

/-- Every antecedent variable must be an input. -/
def requireInputs (r : Registry α) (inputs : List Handle) :
    List (Handle × String) → Checked α Unit
  | [] => .ok ()
  | (h, _) :: rest => do
    unless inputs.contains h do
      let v ← (r.get h).mapError Fault.lookup
      .error (.system (.notAnInput v.name))
    requireInputs r inputs rest

/-- A rule must be valid, conclude on the target and read inputs only. -/
def requireRule (r : Registry α) (inputs : List Handle) (target : Handle) (rule : Rule α) :
    Checked α Unit := do
  rule.validate r
  if rule.target ≠ target then
    let v ← (r.get rule.target).mapError Fault.lookup
    .error (.system (.otherConclusion v.name))
  requireInputs r inputs rule.antecedent.valuations

/-- A system under the default context. Inputs and target must be registered, the target must not
be an input, and every rule must suit them. -/
def build (registry : Registry α) (inputs : List Handle) (rules : RuleBase α) (target : Handle) :
    Checked α (FuzzySystem α) := do
  (inputs ++ [target]).forM fun h => discard ((registry.get h).mapError Fault.lookup)
  if inputs.contains target then .error (.system .targetIsInput)
  rules.rules.forM (requireRule registry inputs target)
  return ⟨registry, inputs, rules, target, {}⟩

/-- The same system under another context. -/
def withContext (s : FuzzySystem α) (ctx : Context) : FuzzySystem α := { s with context := ctx }

/-- The variable concluded upon. -/
def targetVariable (s : FuzzySystem α) : Except LookupFault (Variable α) := s.registry.get s.target

/-- The input variables, in order. -/
def inputVariables (s : FuzzySystem α) : List (Variable α) :=
  s.inputs.filterMap fun h => (s.registry.get h).toOption

/-- The output set for given values, under a given context. -/
def output (s : FuzzySystem α) (inputs : Assignment α) (ctx : Context) :
    Except LookupFault (FuzzySet α) :=
  s.rules.output s.registry inputs ctx

/-- The point that the output set is reduced to, under a given context. -/
def crisp (s : FuzzySystem α) (inputs : Assignment α) (ctx : Context) : Checked α (Point α) := do
  let set ← (s.output inputs ctx).mapError Fault.lookup
  let v ← s.targetVariable.mapError Fault.lookup
  (v.domain.defuzzify set ctx.defuzzification ctx).mapError Fault.domain

/-- The values of an assignment in the order of the inputs. -/
def rowOf (s : FuzzySystem α) (inputs : Assignment α) : Except LookupFault (List (Point α)) :=
  s.inputVariables.mapM fun v => inputs.get v.name

/-- The assignment that gives a row of values to the inputs. -/
def assignmentOf (s : FuzzySystem α) (row : List (Point α)) : Checked α (Assignment α) :=
  if row.length ≠ s.inputs.length then
    .error (.system (.rowWidth row.length s.inputs.length))
  else .ok (.ofList ((s.inputVariables.map (·.name)).zip row))

/-- The crisp output for a row under the system's own context. -/
def predictRow (s : FuzzySystem α) : Row α → Checked α (Point α)
  | .positional values => do s.crisp (← s.assignmentOf values) s.context
  | .named values => s.crisp values s.context

/-- The crisp outputs for rows, in order; the first row that fails decides. -/
def predict (s : FuzzySystem α) (rows : List (Row α)) : Checked α (List (Point α)) :=
  rows.mapM s.predictRow

end FuzzySystem

end FuzzyInference
