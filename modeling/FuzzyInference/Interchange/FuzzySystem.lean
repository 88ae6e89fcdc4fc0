import FuzzyInference.Interchange.Context
import FuzzyInference.Interchange.Statement
import FuzzyInference.Interchange.Variable
import FuzzyInference.Json.Printer
import FuzzyInference.Json.Reader
import FuzzyInference.FuzzySystem.Description

/-!
# Systems in JSON

A system is stored as one object: its input variables, rules and target, and the fields of its
context beside them. A text is read in two steps: it must be JSON and describe a system, and the
system that it describes must be valid.
-/

namespace FuzzyInference

open Json

namespace SystemDescription

/-- A description as a value. -/
def toJson (d : SystemDescription Float) : Json :=
  object ([("variables", array (d.inputs.map Variable.toJson)), ("rules", d.rules.toJson),
    ("target", d.target.toJson)] ++ d.context.toFields)

/-- The fields that belong to a system rather than to its context. -/
def ownFields : List String := ["variables", "rules", "target"]

/-- The description that a value is, which is never an array. Fields beside those of the system
itself are buffered and looked through for the context, so none of them may be unusable. -/
def ofJson? (value : Json) : Option (SystemDescription Float) := do
  let fields ← value.fields?
  let inputs ← (← fields.items? "variables").mapM Variable.ofJson?
  let rules ← RuleBaseStatement.ofJson? (← fields.required? "rules")
  let target ← Variable.ofJson? (← fields.required? "target")
  let others := fields.filter fun (name, _) => !ownFields.contains name
  guard (usableFields others)
  return ⟨inputs, rules, target, ← Context.ofFields? true others⟩

end SystemDescription

/-- The description that a JSON text is, by the way in which values of its type are read. -/
def readDescription {β : Type} (decode : Json → Option β) (text : String) : Checked Float β :=
  match (Json.ofText? text).bind decode with
  | some description => .ok description
  | none => .error .malformedDescription

namespace FuzzySystem

/-- The text that a system is stored as. -/
def toText (s : FuzzySystem Float) : Except LookupFault String :=
  return (← s.describe).toJson.indented

/-- The system that a text describes. -/
def ofText (text : String) : Checked Float (FuzzySystem Float) := do
  (← readDescription SystemDescription.ofJson? text).build

end FuzzySystem

end FuzzyInference
