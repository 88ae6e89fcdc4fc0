import FuzzyInference.Context
import FuzzyInference.Interchange.Fields

/-!
# Contexts in JSON

A context is a record with the tag of one operator of each family. An operator that is missing is
the usual one of its family.
-/

namespace FuzzyInference.Context

open Json

/-- The fields of a context. -/
def toFields (ctx : Context) : Fields :=
  [("defuzzification", string ctx.defuzzification.tag), ("aggregation", string ctx.aggregation.tag),
    ("implication", string ctx.implication.tag), ("AND", string ctx.conjunction.tag),
    ("OR", string ctx.disjunction.tag)]

/-- A context as a value. -/
def toJson (ctx : Context) : Json := object ctx.toFields

/-- The operator whose tag stands under a name, and the usual one if there is none. -/
def operator? {β : Type} (buffered : Bool) (usual : β) (ofTag? : String → Option β)
    (fields : Fields) (name : String) : Option β := do
  match ← fields.optional? name with
  | none => return usual
  | some value => ofTag? (← value.unitTag? buffered)

/-- The context that some fields among others make up. -/
def ofFields? (buffered : Bool) (fields : Fields) : Option Context := do
  return {
    defuzzification :=
      ← operator? buffered .centroid Defuzzification.ofTag? fields "defuzzification"
    aggregation := ← operator? buffered .maximum Disjunction.ofTag? fields "aggregation"
    implication := ← operator? buffered .minimum Implication.ofTag? fields "implication"
    conjunction := ← operator? buffered .minimum Conjunction.ofTag? fields "AND"
    disjunction := ← operator? buffered .maximum Disjunction.ofTag? fields "OR" }

/-- The names of the fields, in order. -/
def fieldNames : List String := ["defuzzification", "aggregation", "implication", "AND", "OR"]

/-- The context that a value is. -/
def ofJson? (value : Json) : Option Context :=
  (Fields.record? fieldNames value).bind (ofFields? false)

end FuzzyInference.Context
