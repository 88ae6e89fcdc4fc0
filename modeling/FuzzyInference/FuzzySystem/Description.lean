import FuzzyInference.Scalar.Machine
import FuzzyInference.FuzzySystem.Basic

/-!
# System descriptions

A system as it is stored: its input variables, its rules by name, its target and its context.
Building a system from a description registers the variables anew and checks everything again.
-/

namespace FuzzyInference

/-- A system that stands on its own. -/
structure SystemDescription (α : Type) where
  /-- The input variables, in order. -/
  inputs : List (Variable α)
  /-- The rules. -/
  rules : RuleBaseStatement α
  /-- The target. -/
  target : Variable α
  /-- The operators in force. -/
  context : Context

variable {α : Type} [Scalar α]

namespace FuzzySystem

/-- The description of a system. -/
def describe (s : FuzzySystem α) : Except LookupFault (SystemDescription α) := do
  let rules ← s.rules.describe s.registry
  let target ← s.targetVariable
  return ⟨s.inputVariables, rules, target, s.context⟩

/-- The text of a system's rules, a line each. -/
def text (s : FuzzySystem Float) : Except LookupFault String :=
  return (← s.rules.describe s.registry).text

end FuzzySystem

namespace Registry

/-- A registry with further variables, and their handles in order. -/
def addAll (r : Registry α) : List (Variable α) → Checked α (Registry α × List Handle)
  | [] => return (r, [])
  | v :: vs => do
    let (r, h) ← r.add v
    let (r, hs) ← r.addAll vs
    return (r, h :: hs)

end Registry

namespace SystemDescription

/-- The system that is described. -/
def build (d : SystemDescription α) : Checked α (FuzzySystem α) := do
  let (registry, inputs) ← Registry.empty.addAll d.inputs
  let (registry, target) ← registry.add d.target
  let rules ← d.rules.resolve registry
  let system ← FuzzySystem.build registry inputs rules target
  return system.withContext d.context

instance : BEq (SystemDescription α) :=
  ⟨fun a b => a.inputs == b.inputs && a.rules == b.rules && a.target == b.target &&
    a.context == b.context⟩

end SystemDescription

end FuzzyInference
